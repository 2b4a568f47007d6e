/-!
# Texts as bytes

A source, a token text and everything the program prints are sequences of
bytes, because columns and lengths count bytes.  This file fixes that view,
encodes strings into it, and says when a sequence of bytes is the encoding of
a string.  What has no room for all of a text takes as much of it as it can.
-/

namespace LayoutLexer

/-- A text as the sequence of its bytes. -/
abbrev Bytes := List UInt8

/-- The byte that ends a line. -/
abbrev lineFeed : UInt8 := 10

abbrev tab : UInt8 := 9

/-- The carriage return, a blank like any other to the lexer. -/
abbrev carriageReturn : UInt8 := 13

abbrev space : UInt8 := 32

/-- The period, which is punctuation but also goes on a number. -/
abbrev period : UInt8 := 46

/-- The underscore, which is punctuation but also a letter of words. -/
abbrev underscore : UInt8 := 95

/-- The UTF-8 encoding of a string. -/
def utf8 (text : String) : Bytes :=
  text.toList.flatMap String.utf8EncodeChar

@[simp]
theorem utf8_append (first second : String) :
    utf8 (first ++ second) = utf8 first ++ utf8 second := by
  simp [utf8]

/-- The decimal digits of a number, without leading zeros. -/
def decimal (number : Nat) : Bytes :=
  (Nat.toDigits 10 number).flatMap String.utf8EncodeChar

/-- Whether a sequence of bytes is the UTF-8 encoding of some string. -/
def isUtf8 (bytes : Bytes) : Bool :=
  bytes.toByteArray.validateUTF8

/-- Exactly the encodings of strings pass the check. -/
theorem isUtf8_iff (bytes : Bytes) :
    isUtf8 bytes = true ↔ ∃ text : String, bytes = utf8 text := by
  rw [isUtf8, ByteArray.validateUTF8_eq_true_iff]
  constructor
  · rintro ⟨characters, encoded⟩
    refine ⟨String.ofList characters, ?_⟩
    rw [utf8, String.toList_ofList]
    have sameData := congrArg (fun array => array.data.toList) encoded
    simpa [List.utf8Encode] using sameData
  · rintro ⟨text, rfl⟩
    exact ⟨text.toList, rfl⟩

/-- Room for a number of bytes, or for any number of them. -/
inductive Room where
  | limited (count : Nat)
  | unlimited
  deriving DecidableEq, Repr

namespace Room

def fits : Room → Bytes → Bool
  | limited count, bytes => bytes.length ≤ count
  | unlimited, _ => true

/-- As much of a text as there is room for. -/
def part : Room → Bytes → Bytes
  | limited count, bytes => bytes.take count
  | unlimited, bytes => bytes

/-- What is left of the room when bytes have taken theirs. -/
def less : Room → Bytes → Room
  | limited count, bytes => limited (count - bytes.length)
  | unlimited, _ => unlimited

/-- The room when bytes have given theirs back. -/
def more : Room → Bytes → Room
  | limited count, bytes => limited (count + bytes.length)
  | unlimited, _ => unlimited

end Room

end LayoutLexer
