import LayoutLexer.ByteClass
import LayoutLexer.Kind

/-!
# Cutting a source into pieces

A source is cut into consecutive pieces: the bytes of one token each, line
breaks together with the margin of the next line, comments, single blanks, and
single bytes that are dropped.  The class of the first byte settles which piece
comes next and how far it reaches; no piece but a line break contains a line
feed.  Every piece takes at least one byte and the pieces put together are the
source again.
-/

namespace LayoutLexer

inductive Piece where
  /-- The bytes of one token, and the text that the token carries, if it does. -/
  | lexeme (kind : Kind) (text : Option Bytes) (bytes : Bytes)
  /-- A line feed and the leading spaces and tabs of the line behind it. -/
  | lineBreak (margin : Bytes)
  | comment (bytes : Bytes)
  | blank (byte : UInt8)
  | dropped (byte : UInt8)
  deriving DecidableEq, Repr

namespace Piece

/-- The bytes that a piece takes up in the source. -/
def bytes : Piece → Bytes
  | lexeme _ _ bytes => bytes
  | lineBreak margin => lineFeed :: margin
  | comment bytes => bytes
  | blank byte => [byte]
  | dropped byte => [byte]

/-- A number has digits only, or digits and one period; any other run that
begins with a digit is unknown. -/
def number (run : Bytes) : Piece :=
  let kind :=
    if run.all fun byte => isDigit byte || byte == period then
      match run.count period with
      | 0 => .integer
      | 1 => .float
      | _ => .unknown
    else .unknown
  lexeme kind (some run) run

def word (run : Bytes) : Piece :=
  match Keyword.ofBytes? run with
  | some keyword => lexeme (.keyword keyword) none run
  | none => lexeme .identifier (some run) run

/-- A string runs to the next occurrence of its quote.  Where the line ends
before that, what there is of it is unknown. -/
def string (quote : UInt8) (rest : Bytes) : Piece :=
  let inside := fun byte => byte != quote && byte != lineFeed
  let opened := quote :: rest.takeWhile inside
  if (rest.dropWhile inside).head? = some quote then
    lexeme .string (some (opened ++ [quote])) (opened ++ [quote])
  else
    lexeme .unknown (some opened) opened

/-- The longest symbol in the run of punctuation, or else one unknown byte. -/
def operator (byte : UInt8) (rest : Bytes) : Piece :=
  match Symbol.leading? (byte :: rest.takeWhile isPunctuation) with
  | some sign => lexeme (.symbol sign) none sign.bytes
  | none => lexeme .unknown (some [byte]) [byte]

/-- The first piece of a source that begins with the given byte. -/
def first (byte : UInt8) (rest : Bytes) : Piece :=
  match ByteClass.of byte with
  | .lineFeed => lineBreak (rest.takeWhile isMargin)
  | .blank => blank byte
  | .digit => number (byte :: rest.takeWhile isNumeric)
  | .letter => word (byte :: rest.takeWhile isWord)
  | .quote => string byte rest
  | .hash => comment (byte :: rest.takeWhile fun byte => byte != lineFeed)
  | .punctuation => operator byte rest
  | .foreign => dropped byte

@[simp]
theorem bytes_number (run : Bytes) : (number run).bytes = run :=
  rfl

@[simp]
theorem bytes_word (run : Bytes) : (word run).bytes = run := by
  unfold word
  split <;> rfl

theorem string_bytes_isPrefix (quote : UInt8) (rest : Bytes) :
    (string quote rest).bytes <+: quote :: rest := by
  unfold string
  dsimp only
  split
  · rename_i closed
    obtain ⟨after, tail⟩ := List.head?_eq_some_iff.mp closed
    refine ⟨after, ?_⟩
    simp only [bytes, List.cons_append, List.append_assoc, List.nil_append]
    rw [← tail, List.takeWhile_append_dropWhile]
  · exact List.cons_prefix_cons.mpr ⟨rfl, List.takeWhile_prefix _⟩

theorem operator_bytes_isPrefix (byte : UInt8) (rest : Bytes) :
    (operator byte rest).bytes <+: byte :: rest := by
  unfold operator
  split
  · rename_i sign found
    exact (Symbol.bytes_isPrefix_of_backOff? found).trans
      (List.cons_prefix_cons.mpr ⟨rfl, List.takeWhile_prefix _⟩)
  · exact List.cons_prefix_cons.mpr ⟨rfl, List.nil_prefix⟩

theorem first_bytes_isPrefix (byte : UInt8) (rest : Bytes) :
    (first byte rest).bytes <+: byte :: rest := by
  unfold first
  split
  · rename_i isLineFeed
    rw [eq_lineFeed_of_class isLineFeed]
    exact List.cons_prefix_cons.mpr ⟨rfl, List.takeWhile_prefix _⟩
  · exact List.cons_prefix_cons.mpr ⟨rfl, List.nil_prefix⟩
  · exact List.cons_prefix_cons.mpr ⟨rfl, List.takeWhile_prefix _⟩
  · rw [bytes_word]
    exact List.cons_prefix_cons.mpr ⟨rfl, List.takeWhile_prefix _⟩
  · exact string_bytes_isPrefix byte rest
  · exact List.cons_prefix_cons.mpr ⟨rfl, List.takeWhile_prefix _⟩
  · exact operator_bytes_isPrefix byte rest
  · exact List.cons_prefix_cons.mpr ⟨rfl, List.nil_prefix⟩

theorem string_bytes_ne_nil (quote : UInt8) (rest : Bytes) :
    (string quote rest).bytes ≠ [] := by
  unfold string
  dsimp only
  split <;> exact List.cons_ne_nil _ _

theorem operator_bytes_ne_nil (byte : UInt8) (rest : Bytes) :
    (operator byte rest).bytes ≠ [] := by
  unfold operator
  split
  · exact Symbol.bytes_ne_nil _
  · exact List.cons_ne_nil _ _

theorem first_bytes_ne_nil (byte : UInt8) (rest : Bytes) :
    (first byte rest).bytes ≠ [] := by
  unfold first
  split
  case h_4 =>
    rw [bytes_word]
    exact List.cons_ne_nil _ _
  case h_5 => exact string_bytes_ne_nil byte rest
  case h_7 => exact operator_bytes_ne_nil byte rest
  all_goals exact List.cons_ne_nil _ _

/-- A lexeme carries a text exactly where its kind asks for one, and then the
text is the bytes themselves. -/
theorem text_of_first_eq_lexeme {byte : UInt8} {rest : Bytes} {kind : Kind}
    {text : Option Bytes} {bytes : Bytes}
    (isLexeme : first byte rest = lexeme kind text bytes) :
    text = if kind.carriesText then some bytes else none := by
  unfold first at isLexeme
  split at isLexeme
  case h_3 =>
    unfold number at isLexeme
    cases isLexeme
    (repeat' split) <;> simp_all [Kind.carriesText]
  case h_4 =>
    unfold word at isLexeme
    split at isLexeme <;> cases isLexeme <;> rfl
  case h_5 =>
    unfold string at isLexeme
    dsimp only at isLexeme
    split at isLexeme <;> cases isLexeme <;> rfl
  case h_7 =>
    unfold operator at isLexeme
    split at isLexeme <;> cases isLexeme <;> rfl
  all_goals cases isLexeme

end Piece

/-- Cut a source and add its pieces to those already there. -/
def cutOnto (pieces : Array Piece) : Bytes → Array Piece
  | [] => pieces
  | byte :: rest =>
    let piece := Piece.first byte rest
    cutOnto (pieces.push piece) ((byte :: rest).drop piece.bytes.length)
termination_by source => source.length
decreasing_by
  have nonempty := List.length_pos_iff.mpr (Piece.first_bytes_ne_nil byte rest)
  simp only [List.length_drop, List.length_cons]
  omega

def cut (source : Bytes) : List Piece :=
  (cutOnto #[] source).toList

/-- Induction along the cutting of a source: a source that is not empty is its
first piece and what comes after it. -/
@[elab_as_elim]
theorem cut_induction {motive : Bytes → Prop} (source : Bytes) (nil : motive [])
    (cons : ∀ byte rest after, byte :: rest = (Piece.first byte rest).bytes ++ after →
      motive after → motive (byte :: rest)) :
    motive source := by
  induction lengthEq : source.length using Nat.strongRecOn generalizing source with
  | ind length ih =>
      cases source with
      | nil => exact nil
      | cons byte rest =>
          obtain ⟨after, split⟩ := Piece.first_bytes_isPrefix byte rest
          have nonempty := List.length_pos_iff.mpr (Piece.first_bytes_ne_nil byte rest)
          have shorter : after.length < length := by
            rw [← lengthEq, ← split, List.length_append]
            omega
          exact cons byte rest after split.symm (ih _ shorter after rfl)

theorem cutOnto_toList (pieces : Array Piece) (source : Bytes) :
    (cutOnto pieces source).toList = pieces.toList ++ cut source := by
  induction source using cut_induction generalizing pieces with
  | nil => simp [cut, cutOnto]
  | cons byte rest after split ih =>
      have tail : (byte :: rest).drop (Piece.first byte rest).bytes.length = after := by
        rw [split, List.drop_left]
      rw [cut, cutOnto, cutOnto, tail, ih, ih (#[].push _)]
      simp

@[simp]
theorem cut_nil : cut [] = [] := by
  simp [cut, cutOnto]

theorem cut_cons {byte : UInt8} {rest after : Bytes}
    (split : byte :: rest = (Piece.first byte rest).bytes ++ after) :
    cut (byte :: rest) = Piece.first byte rest :: cut after := by
  have tail : (byte :: rest).drop (Piece.first byte rest).bytes.length = after := by
    rw [split, List.drop_left]
  rw [cut, cutOnto, tail, cutOnto_toList]
  rfl

theorem flatMap_bytes_cut (source : Bytes) : (cut source).flatMap Piece.bytes = source := by
  induction source using cut_induction with
  | nil => simp
  | cons byte rest after split ih =>
      rw [cut_cons split, List.flatMap_cons, ih, ← split]

end LayoutLexer
