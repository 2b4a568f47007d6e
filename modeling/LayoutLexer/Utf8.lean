import LayoutLexer.Bytes

/-!
# Reading bytes as characters

Any sequence of bytes reads as characters with faulty stretches between them.
A faulty stretch is the longest beginning of some character's encoding that the
next byte does not go on, or else a single byte, which is the division that
Unicode recommends for replacing faults one by one.
-/

namespace LayoutLexer

/-- What is read at the beginning of a sequence of bytes. -/
inductive Utf8Unit where
  | char (char : Char)
  | fault (bytes : Bytes)
  deriving DecidableEq, Repr

/-- The ranges that the bytes behind a leading byte have to lie in.  They shut
out overlong forms, surrogates and numbers beyond the last code point.  A byte
that cannot lead has none. -/
def continuationRanges (lead : UInt8) : Option (List (UInt8 × UInt8)) :=
  let any : UInt8 × UInt8 := (0x80, 0xbf)
  if lead < 0x80 then some []
  else if lead < 0xc2 then none
  else if lead < 0xe0 then some [any]
  else if lead = 0xe0 then some [(0xa0, 0xbf), any]
  else if lead = 0xed then some [(0x80, 0x9f), any]
  else if lead < 0xf0 then some [any, any]
  else if lead = 0xf0 then some [(0x90, 0xbf), any, any]
  else if lead < 0xf4 then some [any, any, any]
  else if lead = 0xf4 then some [(0x80, 0x8f), any, any]
  else none

/-- The bytes that go on a character, as many as lie in their ranges. -/
def continuation : List (UInt8 × UInt8) → Bytes → Bytes
  | (low, high) :: ranges, byte :: rest =>
    if low ≤ byte ∧ byte ≤ high then byte :: continuation ranges rest else []
  | _, _ => []

/-- The code point of a leading byte and its continuation.  The leading byte
holds seven, five, four or three of its bits, each other byte six. -/
def codePoint (lead : UInt8) (tail : Bytes) : Nat :=
  let head :=
    match tail.length with
    | 0 => lead.toNat
    | 1 => lead.toNat % 0x20
    | 2 => lead.toNat % 0x10
    | _ => lead.toNat % 0x08
  tail.foldl (fun point byte => point * 0x40 + byte.toNat % 0x40) head

/-- The character or fault at the beginning of a sequence of bytes, and what
comes behind it. -/
def readUnit (lead : UInt8) (rest : Bytes) : Utf8Unit × Bytes :=
  match continuationRanges lead with
  | none => (.fault [lead], rest)
  | some ranges =>
    let tail := continuation ranges rest
    let unit :=
      if tail.length = ranges.length then .char (Char.ofNat (codePoint lead tail))
      else .fault (lead :: tail)
    (unit, rest.drop tail.length)

theorem length_readUnit_le (lead : UInt8) (rest : Bytes) :
    (readUnit lead rest).2.length ≤ rest.length := by
  unfold readUnit
  split <;> simp

def readUnits : Bytes → List Utf8Unit
  | [] => []
  | lead :: rest =>
    (readUnit lead rest).1 :: readUnits (readUnit lead rest).2
termination_by bytes => bytes.length
decreasing_by
  have bound := length_readUnit_le lead rest
  simp only [List.length_cons]
  omega

/-- A text that may be faulty, with the replacement character for each fault. -/
def replaceFaults (bytes : Bytes) : Bytes :=
  (readUnits bytes).flatMap fun
    | .char char => String.utf8EncodeChar char
    | .fault _ => utf8 "\uFFFD"

end LayoutLexer
