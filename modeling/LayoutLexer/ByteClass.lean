import LayoutLexer.Bytes

/-!
# Classes of bytes

Every byte belongs to exactly one class, and the class of the byte at hand
alone decides what kind of piece begins there.  The runs that a piece then
takes up are described by predicates on single bytes, which overlap: a run of
punctuation also takes in quotes, hashes and underscores.
-/

namespace LayoutLexer

/-- What a byte can begin.  `foreign` bytes begin nothing: they are the control
bytes that are not blank, and all bytes outside ASCII. -/
inductive ByteClass where
  | lineFeed
  | blank
  | digit
  | letter
  | quote
  | hash
  | punctuation
  | foreign
  deriving DecidableEq, Repr

/-- The class of a byte.  Blanks are the space and the controls from the tab to
the carriage return, the line feed apart. -/
def ByteClass.of (byte : UInt8) : ByteClass :=
  if byte = LayoutLexer.lineFeed then .lineFeed
  else if byte = space ∨ 9 ≤ byte ∧ byte ≤ 13 then .blank
  else if 48 ≤ byte ∧ byte ≤ 57 then .digit
  else if 65 ≤ byte ∧ byte ≤ 90 ∨ 97 ≤ byte ∧ byte ≤ 122 ∨ byte = underscore then .letter
  else if byte = 34 ∨ byte = 39 then .quote
  else if byte = 35 then .hash
  else if 33 ≤ byte ∧ byte ≤ 126 then .punctuation
  else .foreign

theorem eq_lineFeed_of_class {byte : UInt8} (isLineFeed : ByteClass.of byte = .lineFeed) :
    byte = lineFeed := by
  unfold ByteClass.of at isLineFeed
  by_cases equal : byte = lineFeed
  · exact equal
  · rw [if_neg equal] at isLineFeed
    (repeat' split at isLineFeed) <;> cases isLineFeed

/-- Blanks that count as the margin of a line when they lead it. -/
def isMargin (byte : UInt8) : Bool :=
  byte == space || byte == tab

def isDigit (byte : UInt8) : Bool :=
  ByteClass.of byte == .digit

/-- A byte of a word: a digit, an ASCII letter or an underscore. -/
def isWord (byte : UInt8) : Bool :=
  ByteClass.of byte == .digit || ByteClass.of byte == .letter

/-- A byte that goes on a number once it has begun. -/
def isNumeric (byte : UInt8) : Bool :=
  isWord byte || byte == period

/-- An ASCII punctuation byte, in the wide sense that takes in quotes, the hash
and the underscore. -/
def isPunctuation (byte : UInt8) : Bool :=
  match ByteClass.of byte with
  | .quote | .hash | .punctuation => true
  | .letter => byte == underscore
  | .lineFeed | .blank | .digit | .foreign => false

end LayoutLexer
