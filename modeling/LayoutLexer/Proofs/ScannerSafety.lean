import LayoutLexer.Proofs.CheckedScanner
import LayoutLexer.Proofs.LineTokens

/-!
# Scanning goes through on every text

The scanners that steps lead to are those that have taken some of the pieces of
their source, in order and from the first one on.  As long as bytes are left,
such a scanner goes on to the next piece, and no check stands in its way.  When
none are left, it is the scanner that has tokenized.
-/

namespace LayoutLexer

namespace Scanner

def consumeAll (scanner : Scanner) (pieces : List Piece) : Scanner :=
  pieces.foldl consume scanner

theorem consumeAll_eq (scanner : Scanner) (pieces : List Piece) :
    scanner.consumeAll pieces =
      { scanner with
        cursor := scanner.cursor.advanceAll pieces
        tokens := scanner.tokens ++ tokensFrom scanner.cursor pieces } := by
  induction pieces generalizing scanner with
  | nil => simp [consumeAll]
  | cons piece pieces ih =>
      rw [consumeAll, List.foldl_cons, ← consumeAll, ih]
      simp [consume]

theorem tokenize_new (source : Bytes) :
    (new source).tokenize = (new source).consumeAll (cut source) :=
  (consumeAll_eq _ _).symm

/-- A scanner has taken pieces of its source, and the rest of the source is left. -/
structure HasTaken (source : Bytes) (taken : List Piece) (rest : Bytes) (scanner : Scanner) :
    Prop where
  bytesEq : source = taken.flatMap Piece.bytes ++ rest
  cutEq : cut source = taken ++ cut rest
  scannerEq : scanner = (new source).consumeAll taken

namespace HasTaken

variable {source rest after : Bytes} {taken : List Piece} {scanner : Scanner} {byte : UInt8}

theorem new (source : Bytes) : HasTaken source [] source (new source) where
  bytesEq := rfl
  cutEq := rfl
  scannerEq := rfl

theorem source_eq (hasTaken : HasTaken source taken rest scanner) : scanner.source = source := by
  rw [hasTaken.scannerEq, consumeAll_eq]
  rfl

theorem offset_eq (hasTaken : HasTaken source taken rest scanner) :
    scanner.cursor.offset = (taken.flatMap Piece.bytes).length := by
  rw [hasTaken.scannerEq, consumeAll_eq, Cursor.offset_advanceAll]
  exact Nat.zero_add _

theorem nextByte?_eq (hasTaken : HasTaken source taken rest scanner) :
    scanner.nextByte? = rest.head? :=
  nextByte?_eq_head? (hasTaken.source_eq.trans hasTaken.bytesEq) hasTaken.offset_eq

theorem step_eq (hasTaken : HasTaken source taken (byte :: rest) scanner)
    (isText : isUtf8 source = true) :
    scanner.step byte = .ok (scanner.consume (Piece.first byte rest)) :=
  step_eq_consume (hasTaken.source_eq ▸ isText)
    (hasTaken.source_eq.trans hasTaken.bytesEq) hasTaken.offset_eq

theorem consume (hasTaken : HasTaken source taken (byte :: rest) scanner)
    (split : byte :: rest = (Piece.first byte rest).bytes ++ after) :
    HasTaken source (taken ++ [Piece.first byte rest]) after
      (scanner.consume (Piece.first byte rest)) where
  bytesEq := by simp [hasTaken.bytesEq, split]
  cutEq := by rw [hasTaken.cutEq, cut_cons split, List.append_assoc, List.singleton_append]
  scannerEq := by rw [hasTaken.scannerEq, consumeAll, consumeAll, List.foldl_append]; rfl

theorem eq_tokenize (hasTaken : HasTaken source taken [] scanner) :
    scanner = (Scanner.new source).tokenize := by
  rw [tokenize_new, hasTaken.cutEq, cut_nil, List.append_nil, hasTaken.scannerEq]

end HasTaken

variable {source : Bytes} {scanner : Scanner}

/-- Steps lead only to scanners that have taken pieces. -/
theorem Reachable.hasTaken (reachable : Reachable source scanner)
    (isText : isUtf8 source = true) : ∃ taken rest, HasTaken source taken rest scanner := by
  induction reachable with
  | new => exact ⟨[], source, .new source⟩
  | @step scanner next byte _ isNext goes ih =>
      obtain ⟨taken, left, hasTaken⟩ := ih
      rw [hasTaken.nextByte?_eq] at isNext
      obtain ⟨rest, rfl⟩ := List.head?_eq_some_iff.mp isNext
      obtain ⟨after, split⟩ := Piece.first_bytes_isPrefix byte rest
      rw [hasTaken.step_eq isText, Except.ok.injEq] at goes
      exact ⟨_, after, goes ▸ hasTaken.consume split.symm⟩

/-- From every scanner that has taken pieces, steps lead to the end. -/
theorem Reachable.tokenize {taken : List Piece} {rest : Bytes}
    (reachable : Reachable source scanner) (hasTaken : HasTaken source taken rest scanner)
    (isText : isUtf8 source = true) : Reachable source (Scanner.new source).tokenize := by
  induction rest using cut_induction generalizing taken scanner with
  | nil => exact hasTaken.eq_tokenize ▸ reachable
  | cons byte rest after split ih =>
      have isNext : scanner.nextByte? = some byte := hasTaken.nextByte?_eq
      exact ih (reachable.step isNext (hasTaken.step_eq isText)) (hasTaken.consume split)

/-- On a text a scanner comes to the end.  Up to there every step goes through, takes
the next piece of the source and moves forward but never beyond the end, and no
character is half dropped and half in a piece that is kept. -/
theorem tokenizes_safely (text : String) :
    (Reachable (utf8 text) (Scanner.new (utf8 text)).tokenize ∧
      (Scanner.new (utf8 text)).tokenize.cursor.offset = (utf8 text).length) ∧
    (∀ scanner, Reachable (utf8 text) scanner →
      match scanner.nextByte? with
      | none => scanner = (Scanner.new (utf8 text)).tokenize
      | some byte => ∃ taken piece left, cut (utf8 text) = taken ++ piece :: left ∧
          scanner = (Scanner.new (utf8 text)).consumeAll taken ∧
          scanner.step byte = .ok (scanner.consume piece) ∧
          scanner.cursor.offset < (scanner.consume piece).cursor.offset ∧
          (scanner.consume piece).cursor.offset ≤ (utf8 text).length) ∧
    ∀ before char after, text.toList = before ++ char :: after →
      TakesWholeCharacter (cut (utf8 text)) (encoded before) char := by
  have isText : isUtf8 (utf8 text) = true := (isUtf8_iff _).mpr ⟨text, rfl⟩
  refine ⟨⟨Reachable.new.tokenize (.new _) isText, ?_⟩, fun scanner reachable => ?_,
    fun before char after split => takesWholeCharacter_cut split⟩
  · rw [tokenize_new, consumeAll_eq, Cursor.offset_advanceAll, flatMap_bytes_cut]
    exact Nat.zero_add _
  · obtain ⟨taken, rest, hasTaken⟩ := reachable.hasTaken isText
    cases rest with
    | nil =>
        have atEnd : scanner.nextByte? = none := hasTaken.nextByte?_eq
        rw [atEnd]
        exact hasTaken.eq_tokenize
    | cons byte rest =>
        have isNext : scanner.nextByte? = some byte := hasTaken.nextByte?_eq
        obtain ⟨after, split⟩ := Piece.first_bytes_isPrefix byte rest
        have behind := hasTaken.consume split.symm
        rw [isNext]
        refine ⟨taken, Piece.first byte rest, cut after, ?_, hasTaken.scannerEq,
          hasTaken.step_eq isText, ?_, ?_⟩
        · rw [hasTaken.cutEq, cut_cons split.symm]
        · have positive := List.length_pos_iff.mpr (Piece.first_bytes_ne_nil byte rest)
          rw [Scanner.consume, Cursor.offset_advance]
          omega
        · have total := congrArg List.length behind.bytesEq
          rw [List.length_append, ← behind.offset_eq] at total
          omega

end Scanner

end LayoutLexer
