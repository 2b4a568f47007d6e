import LayoutLexer.ByteClass
import LayoutLexer.Symbol

/-!
# Which bytes the classes hold

The class of a byte is fixed by an order of tests.  This file says for each
class that the proofs look into which bytes it holds, and where the runs of
words, numbers and punctuation have to stop: at a line feed, at a space, and at
every byte outside ASCII.  There are 256 bytes, so a statement about all of them
is checked byte by byte.  Numbers are printed in the ten digits alone.
-/

namespace LayoutLexer

instance decidableForallByte {holds : UInt8 → Prop} [DecidablePred holds] :
    Decidable (∀ byte, holds byte) :=
  decidable_of_iff (∀ value : Fin 256, holds (UInt8.ofFin value))
    ⟨fun all byte => all byte.toFin, fun all value => all (UInt8.ofFin value)⟩

theorem class_eq_blank_iff : ∀ byte : UInt8,
    ByteClass.of byte = .blank ↔ (byte = 32 ∨ 9 ≤ byte ∧ byte ≤ 13) ∧ byte ≠ 10 := by
  decide +kernel

/-- Foreign bytes are those outside ASCII and the controls that are no
whitespace. -/
theorem class_eq_foreign_iff : ∀ byte : UInt8,
    ByteClass.of byte = .foreign ↔
      128 ≤ byte ∨ (byte < 32 ∨ byte = 127) ∧ ¬ (9 ≤ byte ∧ byte ≤ 13) := by
  decide +kernel

theorem class_eq_hash_iff : ∀ {byte : UInt8}, ByteClass.of byte = .hash ↔ byte = 35 := by
  decide +kernel

/-- A byte that begins something is an ASCII byte. -/
theorem lt_of_class_ne_foreign {byte : UInt8} (known : ByteClass.of byte ≠ .foreign) :
    byte < 128 := by
  rw [ne_eq, class_eq_foreign_iff, not_or, UInt8.not_le] at known
  exact known.1

theorem class_of_isMargin : ∀ {byte : UInt8}, isMargin byte = true →
    ByteClass.of byte = .blank := by
  intro byte margin
  simp only [isMargin, Bool.or_eq_true, beq_iff_eq] at margin
  rcases margin with rfl | rfl <;> rfl

theorem lt_of_isNumeric : ∀ byte : UInt8, isNumeric byte = true → byte < 128 := by
  decide +kernel

theorem lt_of_isWord : ∀ byte : UInt8, isWord byte = true → byte < 128 := by
  decide +kernel

theorem lt_of_isPunctuation : ∀ byte : UInt8, isPunctuation byte = true → byte < 128 := by
  decide +kernel

theorem isPunctuation_of_class {byte : UInt8} (sign : ByteClass.of byte = .punctuation) :
    isPunctuation byte = true := by
  simp [isPunctuation, sign]

theorem ne_lineFeed_of_class {byte : UInt8} {kind : ByteClass}
    (isKind : ByteClass.of byte = kind) (different : kind ≠ .lineFeed) :
    byte ≠ lineFeed := by
  rintro rfl
  exact different isKind.symm

theorem ne_of_class {byte other : UInt8} {kind : ByteClass} (isKind : ByteClass.of byte = kind)
    (different : ByteClass.of other ≠ kind) : other ≠ byte := by
  rintro rfl
  exact different isKind

/-- Symbols are made of punctuation in the narrow sense. -/
theorem Symbol.class_of_mem_bytes (sign : Symbol) :
    ∀ byte ∈ sign.bytes, ByteClass.of byte = .punctuation := by
  cases sign <;> simp [bytes, spelling, utf8, String.utf8EncodeChar] <;> decide

/-! ## Printed numbers -/

theorem utf8EncodeChar_of_isDigit {char : Char} (isDigit : char.isDigit = true) :
    ∃ byte : UInt8, 48 ≤ byte ∧ byte ≤ 57 ∧ String.utf8EncodeChar char = [byte] := by
  rw [Char.isDigit_iff_toNat] at isDigit
  have size : char.utf8Size = 1 := by
    rw [Char.utf8Size_eq_one_iff, UInt32.le_iff_toNat_le]
    exact Nat.le_trans isDigit.2 (by decide)
  have value : char.val.toUInt8.toNat = char.val.toNat := by
    rw [UInt32.toNat_toUInt8, Nat.mod_eq_of_lt]
    exact Nat.lt_of_le_of_lt isDigit.2 (by decide)
  refine ⟨_, ?_, ?_, String.utf8EncodeChar_eq_singleton size⟩
  · rw [UInt8.le_iff_toNat_le, value]
    exact isDigit.1
  · rw [UInt8.le_iff_toNat_le, value]
    exact isDigit.2

theorem isDigit_of_mem_decimal {number : Nat} {byte : UInt8} (member : byte ∈ decimal number) :
    48 ≤ byte ∧ byte ≤ 57 := by
  obtain ⟨char, isChar, isByte⟩ := List.mem_flatMap.mp member
  have isDigit := Nat.isDigit_of_mem_toDigits (by decide) (by decide) isChar
  obtain ⟨digit, low, high, encoding⟩ := utf8EncodeChar_of_isDigit isDigit
  rw [encoding, List.mem_singleton] at isByte
  exact isByte ▸ ⟨low, high⟩

theorem not_mem_decimal (byte : UInt8) (outside : byte < 48 ∨ 57 < byte) (number : Nat) :
    byte ∉ decimal number := by
  intro member
  obtain ⟨low, high⟩ := isDigit_of_mem_decimal member
  rcases outside with less | greater
  · exact UInt8.not_le.mpr less low
  · exact UInt8.not_le.mpr greater high

end LayoutLexer
