import LayoutLexer.Proofs.LineCut

/-!
# Pieces and characters

Every ASCII byte of a text is a character of its own, and the bytes of every
other character lie outside ASCII.  So a text may be divided on either side of
an ASCII byte.  A piece that is not a dropped byte begins with an ASCII byte,
and it ends behind one, in front of one, or with the text, so it holds whole
characters.
-/

namespace LayoutLexer

def encoded (characters : List Char) : Bytes :=
  characters.flatMap String.utf8EncodeChar

theorem utf8_eq_encoded (text : String) : utf8 text = encoded text.toList :=
  rfl

theorem encoded_cons (char : Char) (characters : List Char) :
    encoded (char :: characters) = String.utf8EncodeChar char ++ encoded characters :=
  rfl

theorem encoded_append (first second : List Char) :
    encoded (first ++ second) = encoded first ++ encoded second :=
  List.flatMap_append

theorem encoded_injective {first second : List Char} (same : encoded first = encoded second) :
    first = second := by
  apply String.ofList_injective
  rw [← String.toByteArray_inj, String.toByteArray_ofList, String.toByteArray_ofList,
    List.utf8Encode, List.utf8Encode]
  exact congrArg List.toByteArray same

theorem isUtf8_iff_encoded {bytes : Bytes} :
    isUtf8 bytes = true ↔ ∃ characters, bytes = encoded characters := by
  rw [isUtf8_iff]
  constructor
  · rintro ⟨text, rfl⟩
    exact ⟨text.toList, rfl⟩
  · rintro ⟨characters, rfl⟩
    exact ⟨String.ofList characters, by rw [utf8_eq_encoded, String.toList_ofList]⟩

theorem isUtf8_nil : isUtf8 [] = true :=
  isUtf8_iff_encoded.mpr ⟨[], rfl⟩

theorem isUtf8_append {first second : Bytes} (isFirst : isUtf8 first = true)
    (isSecond : isUtf8 second = true) : isUtf8 (first ++ second) = true := by
  obtain ⟨left, rfl⟩ := isUtf8_iff_encoded.mp isFirst
  obtain ⟨right, rfl⟩ := isUtf8_iff_encoded.mp isSecond
  exact isUtf8_iff_encoded.mpr ⟨left ++ right, (encoded_append left right).symm⟩

/-- The encoding of a character is one ASCII byte, or else none of its bytes is
an ASCII byte. -/
theorem utf8EncodeChar_cases (char : Char) :
    (∃ byte < 128, String.utf8EncodeChar char = [byte]) ∨
      ∀ byte ∈ String.utf8EncodeChar char, 128 ≤ byte := by
  -- Every byte of a longer encoding is a lead above ASCII with a payload below it.
  have outside (payload lead : Nat) (low : 128 ≤ lead) (high : payload + lead < 256) :
      128 ≤ UInt8.ofNat (payload + lead) := by
    rw [UInt8.le_iff_toNat_le, UInt8.toNat_ofNat_of_lt' high]
    exact Nat.le_trans low (Nat.le_add_left _ _)
  unfold String.utf8EncodeChar
  dsimp only
  split
  · rename_i isAscii
    left
    refine ⟨UInt8.ofNat char.val.toNat, ?_, rfl⟩
    rw [UInt8.lt_iff_toNat_lt, UInt8.toNat_ofNat_of_lt' (by change _ < 256; omega)]
    exact Nat.lt_succ_of_le isAscii
  · right
    intro byte member
    split at member
    · simp only [List.mem_cons, List.not_mem_nil, or_false] at member
      rcases member with rfl | rfl <;> exact outside _ _ (by omega) (by omega)
    · split at member <;> simp only [List.mem_cons, List.not_mem_nil, or_false] at member
      · rcases member with rfl | rfl | rfl <;> exact outside _ _ (by omega) (by omega)
      · rcases member with rfl | rfl | rfl | rfl <;> exact outside _ _ (by omega) (by omega)

theorem isUtf8_singleton {byte : UInt8} (isAscii : byte < 128) : isUtf8 [byte] = true := by
  have small : byte.toNat < 128 := UInt8.lt_iff_toNat_lt.mp isAscii
  have value : byte.toUInt32.toNat = byte.toNat := UInt8.toNat_toUInt32 byte
  let char : Char := ⟨byte.toUInt32, Or.inl (by omega)⟩
  refine isUtf8_iff_encoded.mpr ⟨[char], ?_⟩
  rw [encoded_cons, String.utf8EncodeChar]
  simp [char, encoded, Nat.le_of_lt_succ small]

theorem isUtf8_of_ascii {bytes : Bytes} (areAscii : ∀ byte ∈ bytes, byte < 128) :
    isUtf8 bytes = true := by
  induction bytes with
  | nil => exact isUtf8_nil
  | cons byte bytes ih =>
      exact isUtf8_append (isUtf8_singleton (areAscii byte List.mem_cons_self))
        (ih fun other member => areAscii other (List.mem_cons_of_mem _ member))

theorem isUtf8_encoded (characters : List Char) : isUtf8 (encoded characters) = true :=
  isUtf8_iff_encoded.mpr ⟨characters, rfl⟩

/-- A text is divided into texts by each of its ASCII bytes. -/
theorem isUtf8_split {before after : Bytes} {byte : UInt8} (isAscii : byte < 128)
    (isText : isUtf8 (before ++ byte :: after) = true) :
    isUtf8 before = true ∧ isUtf8 after = true := by
  obtain ⟨characters, same⟩ := isUtf8_iff_encoded.mp isText
  clear isText
  induction characters generalizing before with
  | nil => simp [encoded] at same
  | cons char characters ih =>
      rw [encoded_cons, List.append_eq_append_iff] at same
      rcases same with ⟨shared, charEq, behind⟩ | ⟨between, beforeEq, behind⟩
      · cases shared with
        | nil =>
            rw [List.append_nil] at charEq
            have atFront : [] ++ byte :: after = encoded characters := behind
            obtain ⟨-, isAfter⟩ := ih atFront
            refine ⟨?_, isAfter⟩
            rw [← charEq]
            simpa [encoded] using isUtf8_encoded [char]
        | cons other shared =>
            -- The byte is one of this character, which therefore is the byte.
            rw [List.cons_append, List.cons.injEq] at behind
            obtain ⟨rfl, afterEq⟩ := behind
            rcases utf8EncodeChar_cases char with ⟨single, -, isSingle⟩ | outside
            · rw [isSingle, eq_comm, List.append_eq_singleton_iff] at charEq
              simp only [List.cons_ne_nil, and_false, or_false, List.cons.injEq] at charEq
              obtain ⟨rfl, -, rfl⟩ := charEq
              exact ⟨isUtf8_nil, afterEq ▸ isUtf8_encoded characters⟩
            · have low := outside byte (charEq ▸ List.mem_append_right _ List.mem_cons_self)
              exact absurd low (UInt8.not_le.mpr isAscii)
      · obtain ⟨isBetween, isAfter⟩ := ih behind.symm
        refine ⟨?_, isAfter⟩
        rw [beforeEq]
        refine isUtf8_append ?_ isBetween
        simpa [encoded] using isUtf8_encoded [char]

theorem isUtf8_behind_ascii {run after : Bytes} (areAscii : ∀ byte ∈ run, byte < 128)
    (isText : isUtf8 (run ++ after) = true) : isUtf8 after = true := by
  induction run with
  | nil => exact isText
  | cons byte run ih =>
      have atFront : isUtf8 ([] ++ byte :: (run ++ after)) = true := isText
      have isRest := (isUtf8_split (areAscii byte List.mem_cons_self) atFront).2
      exact ih (fun other member => areAscii other (List.mem_cons_of_mem _ member)) isRest

theorem isUtf8_split_front {before after : Bytes}
    (ends : ∀ next, after.head? = some next → next < 128)
    (isText : isUtf8 (before ++ after) = true) :
    isUtf8 before = true ∧ isUtf8 after = true := by
  cases after with
  | nil => exact ⟨by simpa using isText, isUtf8_nil⟩
  | cons next after =>
      have isAscii := ends next rfl
      obtain ⟨isBefore, isAfter⟩ := isUtf8_split isAscii isText
      exact ⟨isBefore, isUtf8_append (isUtf8_singleton isAscii) isAfter⟩

/-- A run that only ASCII bytes end holds whole characters. -/
theorem isUtf8_takeWhile {accepts : UInt8 → Bool}
    (stops : ∀ byte, accepts byte = false → byte < 128) {bytes : Bytes}
    (isText : isUtf8 bytes = true) :
    isUtf8 (bytes.takeWhile accepts) = true ∧ isUtf8 (bytes.dropWhile accepts) = true := by
  rw [← List.takeWhile_append_dropWhile (p := accepts) (l := bytes)] at isText
  exact isUtf8_split_front (fun next isNext => stops next (head?_dropWhile isNext)) isText

theorem isUtf8_intercalate {separator : UInt8} (isAscii : separator < 128) {texts : List Bytes}
    (areTexts : ∀ text ∈ texts, isUtf8 text = true) :
    isUtf8 ([separator].intercalate texts) = true := by
  induction texts with
  | nil => exact isUtf8_nil
  | cons text texts ih =>
      have isText := areTexts text List.mem_cons_self
      have areLater := ih fun other member => areTexts other (List.mem_cons_of_mem _ member)
      cases texts with
      | nil => rwa [List.intercalate_singleton]
      | cons next texts =>
          rw [List.intercalate_cons_cons]
          exact isUtf8_append (isUtf8_append isText (isUtf8_singleton isAscii)) areLater

theorem isUtf8_of_mem_sourceLines {source line : Bytes} (isText : isUtf8 source = true)
    (member : line ∈ sourceLines source) : isUtf8 line = true := by
  induction source using line_induction with
  | last only oneLine =>
      rw [sourceLines_last oneLine, List.mem_singleton] at member
      exact member ▸ isText
  | cons before rest oneLine ih =>
      obtain ⟨isBefore, isRest⟩ := isUtf8_split (by decide) isText
      rw [sourceLines_cons oneLine, List.mem_cons] at member
      rcases member with rfl | later
      · exact isBefore
      · exact ih isRest later

/-! ## Pieces -/

theorem Piece.lt_of_isInside {quote byte : UInt8} (isAscii : quote < 128)
    (stop : isInside quote byte = false) : byte < 128 := by
  simp only [isInside, Bool.and_eq_false_iff, bne_eq_false_iff_eq] at stop
  rcases stop with rfl | rfl
  · exact isAscii
  · decide

/-- A piece that is not a dropped byte holds whole characters. -/
theorem Piece.Leads.isUtf8_bytes {byte : UInt8} {rest after : Bytes} {piece : Piece}
    (leads : Piece.Leads byte rest piece) (known : ByteClass.of byte ≠ .foreign)
    (split : byte :: rest = piece.bytes ++ after) (isText : isUtf8 (byte :: rest) = true) :
    isUtf8 piece.bytes = true ∧ isUtf8 after = true := by
  have isAscii := lt_of_class_ne_foreign known
  have ofAscii (areAscii : ∀ other ∈ piece.bytes, other < 128) :
      isUtf8 piece.bytes = true ∧ isUtf8 after = true :=
    ⟨isUtf8_of_ascii areAscii, isUtf8_behind_ascii areAscii (split ▸ isText)⟩
  have ofRun {accepts : UInt8 → Bool} (ascii : ∀ other, accepts other = true → other < 128) :
      ∀ other ∈ byte :: rest.takeWhile accepts, other < 128 := by
    intro other member
    rcases List.mem_cons.mp member with rfl | inRun
    · exact isAscii
    · exact ascii other (accepts_of_mem_takeWhile inRun)
  have ofSingle : ∀ other ∈ [byte], other < 128 := by
    intro other member
    exact List.mem_singleton.mp member ▸ isAscii
  cases leads with
  | lineBreak isBreak =>
      refine ofAscii ?_
      rw [Piece.bytes, ← isBreak]
      exact ofRun fun other isMargin =>
        lt_of_class_ne_foreign (by rw [class_of_isMargin isMargin]; exact ByteClass.noConfusion)
  | blank isClass => exact ofAscii ofSingle
  | number run isClass isRun => exact ofAscii (isRun ▸ ofRun lt_of_isNumeric)
  | keyword word isClass isRun => exact ofAscii (isRun ▸ ofRun lt_of_isWord)
  | identifier run isClass isRun notKeyword => exact ofAscii (isRun ▸ ofRun lt_of_isWord)
  | string inside behind isClass notQuote oneLine restEq =>
      have whole : byte :: rest = (byte :: inside) ++ byte :: behind := by rw [restEq]; rfl
      rw [whole] at split isText
      obtain ⟨isOpened, isBehind⟩ := isUtf8_split isAscii isText
      have afterEq : behind = after := by simpa [Piece.bytes] using split
      exact ⟨isUtf8_append isOpened (isUtf8_singleton isAscii), afterEq ▸ isBehind⟩
  | openString inside behind isClass notQuote oneLine restEq ends =>
      have afterEq : behind = after := by simpa [Piece.bytes, restEq] using split
      refine isUtf8_split_front (fun next isNext => ?_) (split ▸ isText)
      rw [ends next (afterEq ▸ isNext)]
      decide
  | comment run isClass isRun =>
      have comment : Piece.Leads byte rest (.comment (byte :: run)) := .comment run isClass isRun
      refine isUtf8_split_front (fun next isNext => ?_) (split ▸ isText)
      rw [comment.head?_behind_comment split isNext]
      decide
  | symbol sign isClass found =>
      exact ofAscii fun other member => ofRun lt_of_isPunctuation other
        ((Symbol.bytes_isPrefix_of_backOff? found).subset member)
  | sign isClass notFound => exact ofAscii ofSingle
  | dropped isClass => exact absurd isClass known

theorem Piece.Leads.isDropped_eq_false {byte : UInt8} {rest : Bytes} {piece : Piece}
    (leads : Piece.Leads byte rest piece) (known : ByteClass.of byte ≠ .foreign) :
    piece.isDropped = false := by
  cases leads with
  | dropped isClass => exact absurd isClass known
  | _ => rfl

theorem isUtf8_bytes_of_mem_cut {source : Bytes} (isText : isUtf8 source = true)
    {piece : Piece} (member : piece ∈ cut source) (kept : piece.isDropped = false) :
    isUtf8 piece.bytes = true := by
  obtain ⟨byte, rest, ⟨before, split⟩, rfl⟩ := eq_first_of_mem_cut member
  have known : ByteClass.of byte ≠ .foreign := by
    intro isForeign
    rw [Piece.first_foreign isForeign] at kept
    cases kept
  have isAscii := lt_of_class_ne_foreign known
  have isRest := (isUtf8_split isAscii (split ▸ isText)).2
  obtain ⟨after, pieceSplit⟩ := Piece.first_bytes_isPrefix byte rest
  exact ((Piece.leads_first byte rest).isUtf8_bytes known pieceSplit.symm
    (isUtf8_append (isUtf8_singleton isAscii) isRest)).1

/-! ## Characters -/

/-- All bytes of a character, with the given bytes before it, lie in one piece that
is not dropped. -/
def KeepsCharacter (pieces : List Piece) (before : Bytes) (char : Char) : Prop :=
  ∃ earlier piece later left right, pieces = earlier ++ piece :: later ∧
    piece.isDropped = false ∧ piece.bytes = left ++ (String.utf8EncodeChar char ++ right) ∧
    earlier.flatMap Piece.bytes ++ left = before

/-- All bytes of a character, with the given bytes before it, are dropped one by
one. -/
def DropsCharacter (pieces : List Piece) (before : Bytes) (char : Char) : Prop :=
  ∃ earlier later,
    pieces = earlier ++ ((String.utf8EncodeChar char).map Piece.dropped ++ later) ∧
      earlier.flatMap Piece.bytes = before

/-- A character, with the given bytes before it, is not torn apart. -/
def TakesWholeCharacter (pieces : List Piece) (before : Bytes) (char : Char) : Prop :=
  KeepsCharacter pieces before char ∨ DropsCharacter pieces before char

theorem TakesWholeCharacter.prepend {pieces : List Piece} {before : Bytes} {char : Char}
    (whole : TakesWholeCharacter pieces before char) {front : List Piece} {text : Bytes}
    (frontEq : front.flatMap Piece.bytes = text) :
    TakesWholeCharacter (front ++ pieces) (text ++ before) char := by
  subst frontEq
  rcases whole with keeps | drops
  · obtain ⟨earlier, piece, later, left, right, rfl, notDropped, bytes, rfl⟩ := keeps
    exact Or.inl ⟨front ++ earlier, piece, later, left, right, by simp, notDropped, bytes,
      by simp⟩
  · obtain ⟨earlier, later, rfl, rfl⟩ := drops
    exact Or.inr ⟨front ++ earlier, later, by simp, by simp⟩

/-- Either no byte of a character is foreign or all of them are. -/
theorem foreign_of_head_utf8EncodeChar {char : Char} {byte : UInt8} {tail : Bytes}
    (isEncoding : String.utf8EncodeChar char = byte :: tail)
    (isForeign : ByteClass.of byte = .foreign) :
    ∀ other ∈ String.utf8EncodeChar char, ByteClass.of other = .foreign := by
  intro other member
  rcases utf8EncodeChar_cases char with ⟨single, -, isSingle⟩ | outside
  · rw [isSingle, List.cons.injEq] at isEncoding
    rw [isSingle, List.mem_singleton] at member
    rw [member, isEncoding.1, isForeign]
  · exact (class_eq_foreign_iff other).mpr (Or.inl (outside other member))

theorem flatMap_bytes_map_dropped (bytes : Bytes) :
    (bytes.map Piece.dropped).flatMap Piece.bytes = bytes := by
  induction bytes with
  | nil => rfl
  | cons byte bytes ih => rw [List.map_cons, List.flatMap_cons, ih]; rfl

/-- A text begins with a character that is dropped, or with a piece of whole
characters. -/
theorem cut_encoded_cons (char : Char) (characters : List Char) :
    cut (encoded (char :: characters)) =
        (String.utf8EncodeChar char).map .dropped ++ cut (encoded characters) ∨
      ∃ piece taken left, taken ≠ [] ∧ char :: characters = taken ++ left ∧
        piece.isDropped = false ∧ piece.bytes = encoded taken ∧
        cut (encoded (char :: characters)) = piece :: cut (encoded left) := by
  obtain ⟨byte, tail, isEncoding⟩ :=
    List.exists_cons_of_ne_nil (String.utf8EncodeChar_ne_nil (c := char))
  by_cases isForeign : ByteClass.of byte = .foreign
  · left
    rw [encoded_cons]
    exact cut_foreign_append (foreign_of_head_utf8EncodeChar isEncoding isForeign) _
  · right
    have leads := Piece.leads_first byte (tail ++ encoded characters)
    obtain ⟨after, split⟩ := Piece.first_bytes_isPrefix byte (tail ++ encoded characters)
    have whole : encoded (char :: characters) = byte :: (tail ++ encoded characters) := by
      rw [encoded_cons, isEncoding, List.cons_append]
    obtain ⟨isPiece, isAfter⟩ := leads.isUtf8_bytes isForeign split.symm
      (whole ▸ isUtf8_encoded (char :: characters))
    obtain ⟨taken, pieceEq⟩ := isUtf8_iff_encoded.mp isPiece
    obtain ⟨left, rfl⟩ := isUtf8_iff_encoded.mp isAfter
    refine ⟨_, taken, left, ?_, ?_, leads.isDropped_eq_false isForeign, pieceEq, ?_⟩
    · rintro rfl
      exact Piece.first_bytes_ne_nil _ _ pieceEq
    · apply encoded_injective
      rw [whole, ← split, pieceEq, encoded_append]
    · rw [whole, cut_cons split.symm]

/-- The dropped bytes make up whole characters: every character of a text is kept
in one piece or dropped with all its bytes. -/
theorem takesWholeCharacter_cut {characters earlier later : List Char} {char : Char}
    (split : characters = earlier ++ char :: later) :
    TakesWholeCharacter (cut (encoded characters)) (encoded earlier) char := by
  induction lengthEq : characters.length using Nat.strongRecOn
    generalizing characters earlier with
  | ind length ih =>
      obtain ⟨first, others, rfl⟩ : ∃ first others, characters = first :: others := by
        cases characters with
        | nil => simp at split
        | cons first others => exact ⟨first, others, rfl⟩
      rcases cut_encoded_cons first others with cutEq | ⟨piece, taken, left, notEmpty, parts,
        notDropped, pieceEq, cutEq⟩
      · rw [cutEq]
        cases earlier with
        | nil =>
            obtain ⟨rfl, rfl⟩ := List.cons.inj split
            exact Or.inr ⟨[], cut (encoded others), rfl, rfl⟩
        | cons _ earlier =>
            obtain ⟨rfl, othersEq⟩ := List.cons.inj split
            have shorter : others.length < length := lengthEq ▸ Nat.lt_succ_self _
            exact (ih _ shorter othersEq rfl).prepend (flatMap_bytes_map_dropped _)
      · have shorter : left.length < length := by
          have total := congrArg List.length parts
          have positive := List.length_pos_iff.mpr notEmpty
          rw [List.length_append] at total
          omega
        have frontEq : [piece].flatMap Piece.bytes = encoded taken :=
          (List.append_nil _).trans pieceEq
        rw [cutEq]
        rw [parts, List.append_eq_append_iff] at split
        rcases split with ⟨between, earlierEq, leftEq⟩ | ⟨between, takenEq, leftEq⟩
        · rw [earlierEq, encoded_append]
          have whole := (ih _ shorter leftEq rfl).prepend frontEq
          exact whole
        · cases between with
          | nil =>
              -- The character is the first one behind the piece.
              have atHead : TakesWholeCharacter (cut (encoded left)) (encoded []) char :=
                ih _ shorter leftEq.symm rfl
              rw [takenEq, List.append_nil] at frontEq
              have whole := atHead.prepend frontEq
              simpa [encoded] using whole
          | cons _ between =>
              obtain ⟨rfl, rfl⟩ := List.cons.inj leftEq
              refine Or.inl ⟨[], piece, _, encoded earlier, encoded between, rfl, notDropped,
                ?_, rfl⟩
              rw [pieceEq, takenEq, encoded_append, encoded_cons]

end LayoutLexer
