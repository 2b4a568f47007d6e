import LayoutLexer.Unprintable
import LayoutLexer.Utf8

/-!
# Quoted texts

A quoted text stands between double quotes and stays on one line whatever it
holds.  Quotes, backslashes and the common controls are escaped by a backslash
and a letter, other characters without a plain printed form by their code point
in hexadecimal digits between braces, and bytes that are no part of a character
by two hexadecimal digits each.
-/

namespace LayoutLexer

/-- The lower-case hexadecimal digits of a number, without leading zeros. -/
def hexadecimal (number : Nat) : Bytes :=
  (Nat.toDigits 16 number).flatMap String.utf8EncodeChar

/-- A character as it stands in a quoted text. -/
def quotedChar (char : Char) : Bytes :=
  if char = '"' then utf8 "\\\""
  else if char = '\\' then utf8 "\\\\"
  else if char = '\n' then utf8 "\\n"
  else if char = '\r' then utf8 "\\r"
  else if char = '\t' then utf8 "\\t"
  else if char = '\x00' then utf8 "\\0"
  else if isUnprintable char then utf8 "\\u\x7b" ++ hexadecimal char.toNat ++ utf8 "\x7d"
  else String.utf8EncodeChar char

/-- A byte that is no part of a character as it stands in a quoted text. -/
def quotedByte (byte : UInt8) : Bytes :=
  let digit (value : Nat) := (Nat.toDigits 16 value).map Char.toUpper
  utf8 "\\x" ++ (digit (byte.toNat / 16) ++ digit (byte.toNat % 16)).flatMap String.utf8EncodeChar

/-- A character or a fault as it stands in a quoted text. -/
def quotedUnit : Utf8Unit → Bytes
  | .char char => quotedChar char
  | .fault bytes => bytes.flatMap quotedByte

/-- A text between double quotes, escaped where it has to be. -/
def quoted (text : Bytes) : Bytes :=
  utf8 "\"" ++ (readUnits text).flatMap quotedUnit ++ utf8 "\""

end LayoutLexer
