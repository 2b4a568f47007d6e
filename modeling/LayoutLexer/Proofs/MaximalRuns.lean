import LayoutLexer.Proofs.SourceTiling

/-!
# Words and numbers are maximal runs

Outside strings and comments every letter, underscore and digit of a source belongs
to a word or to a number.  A word goes as far as letters, underscores and digits go,
and a number goes as far as these and periods do.  The byte that a run begins with
settles which of the two it is, and what stands in front of it, be it a symbol, a
dropped byte or a string, has no influence.
-/

namespace LayoutLexer

/-! ## Bytes of words and of numbers -/

def IsDigitByte (byte : UInt8) : Prop :=
  48 ≤ byte ∧ byte ≤ 57

/-- An ASCII letter or the underscore. -/
def IsLetterByte (byte : UInt8) : Prop :=
  65 ≤ byte ∧ byte ≤ 90 ∨ 97 ≤ byte ∧ byte ≤ 122 ∨ byte = 95

def IsWordByte (byte : UInt8) : Prop :=
  IsLetterByte byte ∨ IsDigitByte byte

def IsNumberByte (byte : UInt8) : Prop :=
  IsWordByte byte ∨ byte = 46

instance (byte : UInt8) : Decidable (IsDigitByte byte) :=
  inferInstanceAs (Decidable (_ ∧ _))

instance (byte : UInt8) : Decidable (IsLetterByte byte) :=
  inferInstanceAs (Decidable (_ ∨ _))

instance (byte : UInt8) : Decidable (IsWordByte byte) :=
  inferInstanceAs (Decidable (_ ∨ _))

instance (byte : UInt8) : Decidable (IsNumberByte byte) :=
  inferInstanceAs (Decidable (_ ∨ _))

theorem class_eq_digit_iff : ∀ {byte : UInt8},
    ByteClass.of byte = .digit ↔ IsDigitByte byte := by
  decide +kernel

theorem class_eq_letter_iff : ∀ {byte : UInt8},
    ByteClass.of byte = .letter ↔ IsLetterByte byte := by
  decide +kernel

theorem class_eq_quote_iff : ∀ {byte : UInt8},
    ByteClass.of byte = .quote ↔ byte = 34 ∨ byte = 39 := by
  decide +kernel

theorem isWord_iff : ∀ byte : UInt8, isWord byte = true ↔ IsWordByte byte := by
  decide +kernel

theorem isNumeric_iff : ∀ byte : UInt8, isNumeric byte = true ↔ IsNumberByte byte := by
  decide +kernel

theorem isDigit_iff : ∀ byte : UInt8, isDigit byte = true ↔ IsDigitByte byte := by
  decide +kernel

/-- Only letters and digits in the sense of the classes are bytes of words. -/
theorem class_of_isWordByte {byte : UInt8} (isByte : IsWordByte byte) :
    ByteClass.of byte = .letter ∨ ByteClass.of byte = .digit :=
  isByte.imp class_eq_letter_iff.mpr class_eq_digit_iff.mpr

theorem Symbol.not_isWordByte (sign : Symbol) : ∀ byte ∈ sign.bytes, ¬ IsWordByte byte := by
  intro byte member isByte
  have isSign := sign.class_of_mem_bytes byte member
  rcases class_of_isWordByte isByte with isClass | isClass <;> cases isSign.symm.trans isClass

/-! ## Runs -/

/-- A run of bytes of one sort that ends only where the next byte is of another sort. -/
structure MaximalRun (accepts : UInt8 → Prop) (run behind : Bytes) : Prop where
  all : ∀ byte ∈ run, accepts byte
  stops : ∀ next, behind.head? = some next → ¬ accepts next

theorem maximalRun_takeWhile {accepts : UInt8 → Bool} {sort : UInt8 → Prop}
    (same : ∀ byte, accepts byte = true ↔ sort byte) {byte : UInt8} {rest behind : Bytes}
    (isFirst : sort byte) (split : byte :: rest = byte :: rest.takeWhile accepts ++ behind) :
    MaximalRun sort (byte :: rest.takeWhile accepts) behind where
  all := by
    intro other member
    rcases List.mem_cons.mp member with rfl | inRun
    · exact isFirst
    · exact (same other).mp (accepts_of_mem_takeWhile inRun)
  stops := by
    intro next isNext isSort
    rw [eq_dropWhile_of_run split] at isNext
    have stopped := head?_dropWhile isNext
    rw [(same next).mpr isSort] at stopped
    cases stopped

/-- Whether a text begins with a byte of one sort. -/
def BeginsWith (sort : UInt8 → Prop) (text : Bytes) : Prop :=
  ∃ first, text.head? = some first ∧ sort first

/-- A token whose lexeme is a word.  The reserved words have kinds of their own and no
text, all others are identifiers. -/
structure Token.IsWordRun (token : Token) (lexeme behind : Bytes) : Prop where
  begins : BeginsWith IsLetterByte lexeme
  run : MaximalRun IsWordByte lexeme behind
  keyword_iff : ∀ keyword, token.kind = .keyword keyword ∧ token.text = none ↔
    lexeme = keyword.bytes
  identifier_iff : token.kind = .identifier ∧ token.text = some lexeme ↔
    ∀ keyword : Keyword, lexeme ≠ keyword.bytes

/-- Digits with one period among them. -/
def IsFloatText (text : Bytes) : Prop :=
  (∀ byte ∈ text, IsDigitByte byte ∨ byte = 46) ∧ text.count 46 = 1

/-- A token whose lexeme begins with a digit. -/
structure Token.IsNumberRun (token : Token) (lexeme behind : Bytes) : Prop where
  begins : BeginsWith IsDigitByte lexeme
  run : MaximalRun IsNumberByte lexeme behind
  text_eq : token.text = some lexeme
  integer_iff : token.kind = .integer ↔ ∀ byte ∈ lexeme, IsDigitByte byte
  float_iff : token.kind = .float ↔ IsFloatText lexeme
  unknown_iff : token.kind = .unknown ↔
    (¬ ∀ byte ∈ lexeme, IsDigitByte byte) ∧ ¬ IsFloatText lexeme

/-- The kinds that only words have. -/
def Token.HasWordKind (token : Token) : Prop :=
  token.kind = .identifier ∨ ∃ keyword, token.kind = .keyword keyword

/-- The kinds that only numbers have, and unknown tokens that begin like one. -/
def Token.HasNumberKind (token : Token) : Prop :=
  token.kind = .integer ∨ token.kind = .float ∨
    token.kind = .unknown ∧ ∃ text, token.text = some text ∧ BeginsWith IsDigitByte text

/-- Strings, and unknown tokens that begin like one. -/
def Token.IsQuoted (token : Token) : Prop :=
  token.kind = .string ∨ token.kind = .unknown ∧
    ∃ text, token.text = some text ∧ BeginsWith (fun byte => byte = 34 ∨ byte = 39) text

/-! ## Kinds of numbers -/

theorem all_isDigit_or_period {run : Bytes} :
    (run.all fun byte => isDigit byte || byte == period) = true ↔
      ∀ byte ∈ run, IsDigitByte byte ∨ byte = 46 := by
  simp only [List.all_eq_true, Bool.or_eq_true, isDigit_iff, beq_iff_eq]

theorem Piece.numberKind_eq_float_iff {run : Bytes} :
    numberKind run = .float ↔ IsFloatText run := by
  unfold numberKind IsFloatText
  rw [← all_isDigit_or_period]
  split
  · rename_i all
    have samePeriod : run.count period = run.count 46 := rfl
    rw [← samePeriod]
    split <;> simp_all
  · rename_i notAll
    simp [notAll]

theorem Piece.numberKind_eq_integer_iff {run : Bytes} :
    numberKind run = .integer ↔ ∀ byte ∈ run, IsDigitByte byte := by
  constructor
  · intro isInteger byte member
    unfold numberKind at isInteger
    split at isInteger
    · rename_i all
      split at isInteger
      · rename_i noPeriod
        refine (all_isDigit_or_period.mp all byte member).resolve_right ?_
        rintro rfl
        exact List.count_eq_zero.mp noPeriod member
      all_goals cases isInteger
    · cases isInteger
  · intro digits
    have all := all_isDigit_or_period.mpr fun byte member => .inl (digits byte member)
    have noPeriod : run.count period = 0 := List.count_eq_zero_of_not_mem fun member =>
      absurd (digits period member) (by decide)
    simp [numberKind, all, noPeriod]

theorem Piece.numberKind_eq_unknown_iff {run : Bytes} :
    numberKind run = .unknown ↔ (¬ ∀ byte ∈ run, IsDigitByte byte) ∧ ¬ IsFloatText run := by
  rw [← numberKind_eq_integer_iff, ← numberKind_eq_float_iff]
  rcases numberKind_eq run with same | same | same <;> simp [same]

/-! ## Tiles at their places -/

namespace Tile

/-- A tile and the bytes that begin where it stands. -/
inductive Leads (byte : UInt8) (rest : Bytes) : Tile → Prop
  | lexeme {found : Token} {lexeme : Bytes} :
      Piece.Leads byte rest (.lexeme found.kind found.text lexeme) →
      Leads byte rest (.token found lexeme)
  | newline {found : Token} : byte = lineFeed → found.kind = .newline →
      Leads byte rest (.token found [lineFeed])
  | comment {bytes : Bytes} : Piece.Leads byte rest (.comment bytes) →
      Leads byte rest (.comment bytes)
  | blank : ByteClass.of byte = .blank → Leads byte rest (.blank byte)
  | dropped : ByteClass.of byte = .foreign → Leads byte rest (.dropped byte)

theorem leads_of_tiles_eq {byte : UInt8} {rest behind : Bytes} {piece : Piece}
    (leads : Piece.Leads byte rest piece) (split : byte :: rest = piece.bytes ++ behind)
    {cursor : Cursor} {before after : List Tile} {tile : Tile}
    (parts : PlacedPiece.tiles { cursor, piece } = before ++ tile :: after) :
    ∃ first others, first :: others = tile.bytes ++ (bytesOf after ++ behind) ∧
      Leads first others tile := by
  have single {only : Tile} (parts : [only] = before ++ tile :: after) :
      tile = only ∧ after = [] := by
    rcases List.append_eq_singleton_iff.mp parts.symm with ⟨-, here⟩ | ⟨-, here⟩
    · exact List.cons_eq_cons.mp here
    · cases here
  cases piece with
  | lexeme kind text bytes =>
      obtain ⟨rfl, rfl⟩ := single parts
      exact ⟨byte, rest, split, .lexeme leads⟩
  | lineBreak margin =>
      obtain rfl : margin = rest.takeWhile isMargin := by
        cases leads with
        | lineBreak _ => rfl
      cases before with
      | nil =>
          obtain ⟨rfl, rfl⟩ := List.cons.inj parts
          exact ⟨lineFeed, _, rfl, .newline rfl rfl⟩
      | cons _ before =>
          have inMargin : tile ∈ (rest.takeWhile isMargin).map blank := by
            rw [(List.cons.inj parts).2]
            exact List.mem_append_right _ List.mem_cons_self
          obtain ⟨other, isMember, rfl⟩ := List.mem_map.mp inMargin
          exact ⟨other, _, rfl, .blank (class_of_isMargin (accepts_of_mem_takeWhile isMember))⟩
  | comment bytes =>
      obtain ⟨rfl, rfl⟩ := single parts
      exact ⟨byte, rest, split, .comment leads⟩
  | blank byte =>
      obtain ⟨rfl, rfl⟩ := single parts
      cases leads with
      | blank isClass => exact ⟨_, rest, split, .blank isClass⟩
  | dropped byte =>
      obtain ⟨rfl, rfl⟩ := single parts
      cases leads with
      | dropped isClass => exact ⟨_, rest, split, .dropped isClass⟩

/-- Every tile of a source leads the bytes from its place on. -/
theorem leads_of_tilesFrom_eq {cursor : Cursor} {source : Bytes} {before after : List Tile}
    {tile : Tile} (parts : tilesFrom cursor (cut source) = before ++ tile :: after) :
    ∃ byte rest, byte :: rest = tile.bytes ++ bytesOf after ∧ Leads byte rest tile := by
  induction source using cut_induction generalizing cursor before with
  | nil => simp [tilesFrom] at parts
  | cons byte rest behind split ih =>
      rw [cut_cons split, tilesFrom_cons] at parts
      rcases List.append_eq_append_iff.mp parts with ⟨more, -, later⟩ | ⟨more, here, goesOn⟩
      · exact ih later
      · cases more with
        | nil =>
            have later : tilesFrom _ (cut behind) = [] ++ tile :: after := goesOn.symm
            exact ih later
        | cons other more =>
            rw [List.cons_append, List.cons.injEq] at goesOn
            obtain ⟨rfl, rfl⟩ := goesOn
            rw [bytesOf_append, bytesOf_tilesFrom]
            exact leads_of_tiles_eq (Piece.leads_first byte rest) split here

theorem Leads.bytes_ne_nil {byte : UInt8} {rest : Bytes} {tile : Tile}
    (leads : Leads byte rest tile) : tile.bytes ≠ [] := by
  cases leads with
  | lexeme leads => exact leads.bytes_ne_nil
  | comment leads => exact leads.bytes_ne_nil
  | newline | blank | dropped => exact List.cons_ne_nil _ _

end Tile

/-! ## Words, numbers and all others -/

theorem not_isWordByte_of_class {byte : UInt8} {sort : ByteClass}
    (isClass : ByteClass.of byte = sort) (notWord : sort ≠ .letter ∧ sort ≠ .digit) :
    ¬ IsWordByte byte := by
  subst isClass
  intro isByte
  exact (class_of_isWordByte isByte).elim notWord.1 notWord.2

theorem not_isWordByte_lineFeed : ¬ IsWordByte lineFeed := by
  decide

theorem not_beginsWith_cons {sort : UInt8 → Prop} {byte : UInt8} (notSort : ¬ sort byte)
    (bytes : Bytes) : ¬ BeginsWith sort (byte :: bytes) := by
  rintro ⟨first, isFirst, isSort⟩
  rw [← Option.some.inj isFirst] at isSort
  exact notSort isSort

/-- No two bytes of words meet where one text ends and the next begins. -/
def Apart (text behind : Bytes) : Prop :=
  ∀ last next, text.getLast? = some last → behind.head? = some next →
    ¬ (IsWordByte last ∧ IsWordByte next)

/-- A token that is no word and no number. -/
structure Token.IsOther (token : Token) (lexeme behind : Bytes) : Prop where
  begins : ¬ BeginsWith IsWordByte lexeme
  notWord : ¬ token.HasWordKind
  notNumber : ¬ token.HasNumberKind
  word_bytes : token.IsQuoted ∨ ∀ byte ∈ lexeme, ¬ IsWordByte byte
  apart : Apart lexeme behind

theorem Token.IsOther.of_no_word_bytes {token : Token} {lexeme behind : Bytes}
    (noWordBytes : ∀ byte ∈ lexeme, ¬ IsWordByte byte) (notWord : ¬ token.HasWordKind)
    (notNumber : ¬ token.HasNumberKind) : token.IsOther lexeme behind where
  begins := fun ⟨first, isFirst, isByte⟩ => noWordBytes first (List.mem_of_head? isFirst) isByte
  notWord
  notNumber
  word_bytes := .inr noWordBytes
  apart := fun last _ isLast _ both => noWordBytes last (List.mem_of_getLast? isLast) both.1

theorem Token.not_hasNumberKind_of_unknown {token : Token} (isUnknown : token.kind = .unknown)
    {byte : UInt8} {tail : Bytes} (hasText : token.text = some (byte :: tail))
    (notDigit : ¬ IsDigitByte byte) : ¬ token.HasNumberKind := by
  rintro (isInteger | isFloat | ⟨-, text, isText, begins⟩)
  · rw [isUnknown] at isInteger
    cases isInteger
  · rw [isUnknown] at isFloat
    cases isFloat
  · obtain rfl := Option.some.inj (hasText.symm.trans isText)
    exact not_beginsWith_cons notDigit tail begins

theorem Keyword.bytes_injective {word other : Keyword} (same : word.bytes = other.bytes) :
    word = other :=
  Option.some.inj ((ofBytes?_eq_some_iff.mpr rfl).symm.trans (ofBytes?_eq_some_iff.mpr same))

/-- Every token of a source that is no newline is a word, a number, or neither. -/
theorem Piece.Leads.word_or_number {byte : UInt8} {rest behind : Bytes} {token : Token}
    {lexeme : Bytes} (leads : Piece.Leads byte rest (.lexeme token.kind token.text lexeme))
    (split : byte :: rest = lexeme ++ behind) :
    token.IsWordRun lexeme behind ∨ token.IsNumberRun lexeme behind ∨
      token.IsOther lexeme behind := by
  obtain ⟨kind, text, line, startColumn, endColumn⟩ := token
  dsimp only at leads
  cases leads with
  | number run isClass isRun =>
      subst isRun
      have isDigit := class_eq_digit_iff.mp isClass
      exact .inr (.inl {
        begins := ⟨byte, rfl, isDigit⟩
        run := maximalRun_takeWhile isNumeric_iff (.inl (.inr isDigit)) split
        text_eq := rfl
        integer_iff := numberKind_eq_integer_iff
        float_iff := numberKind_eq_float_iff
        unknown_iff := numberKind_eq_unknown_iff })
  | keyword word isClass isRun =>
      have isLetter := class_eq_letter_iff.mp isClass
      refine .inl {
        begins := ⟨byte, by rw [isRun]; rfl, isLetter⟩
        run := isRun ▸ maximalRun_takeWhile isWord_iff (.inl isLetter) (isRun ▸ split)
        keyword_iff := fun other => ?_
        identifier_iff := ?_ }
      · constructor
        · rintro ⟨same, -⟩
          cases same
          rfl
        · intro same
          exact ⟨congrArg Kind.keyword (Keyword.bytes_injective same), rfl⟩
      · constructor
        · rintro ⟨same, -⟩
          cases same
        · intro different
          exact absurd rfl (different word)
  | identifier run isClass isRun notKeyword =>
      subst isRun
      have isLetter := class_eq_letter_iff.mp isClass
      have different : ∀ word : Keyword, byte :: rest.takeWhile isWord ≠ word.bytes := by
        intro word same
        rw [Keyword.ofBytes?_eq_some_iff.mpr same] at notKeyword
        cases notKeyword
      refine .inl {
        begins := ⟨byte, rfl, isLetter⟩
        run := maximalRun_takeWhile isWord_iff (.inl isLetter) split
        keyword_iff := fun other => ?_
        identifier_iff := ⟨fun _ => different, fun _ => ⟨rfl, rfl⟩⟩ }
      constructor
      · rintro ⟨same, -⟩
        cases same
      · intro same
        exact absurd same (different other)
  | string inside after isClass notQuote oneLine parts =>
      have notWordByte : ¬ IsWordByte byte :=
        not_isWordByte_of_class isClass (by decide)
      refine .inr (.inr {
        begins := not_beginsWith_cons notWordByte _
        notWord := ?_
        notNumber := ?_
        word_bytes := .inl (.inl rfl)
        apart := fun last next isLast _ both => ?_ })
      · rintro (same | ⟨_, same⟩) <;> cases same
      · rintro (same | same | ⟨same, -⟩) <;> cases same
      · rw [← List.cons_append, List.getLast?_concat] at isLast
        exact notWordByte (Option.some.inj isLast ▸ both.1)
  | openString inside after isClass notQuote oneLine parts ends =>
      have notWordByte : ¬ IsWordByte byte :=
        not_isWordByte_of_class isClass (by decide)
      refine .inr (.inr {
        begins := not_beginsWith_cons notWordByte _
        notWord := ?_
        notNumber := Token.not_hasNumberKind_of_unknown rfl rfl fun digit => notWordByte (.inr digit)
        word_bytes := .inl (.inr ⟨rfl, _, rfl, byte, rfl, class_eq_quote_iff.mp isClass⟩)
        apart := fun last next _ isNext both => ?_ })
      · rintro (same | ⟨_, same⟩) <;> cases same
      · rw [Piece.head?_behind_open parts ends split next isNext] at both
        exact not_isWordByte_lineFeed both.2
  | symbol sign isClass found =>
      refine .inr (.inr (.of_no_word_bytes sign.not_isWordByte ?_ ?_))
      · rintro (same | ⟨_, same⟩) <;> cases same
      · rintro (same | same | ⟨same, -⟩) <;> cases same
  | sign isClass notFound =>
      have notWordByte : ¬ IsWordByte byte :=
        not_isWordByte_of_class isClass (by decide)
      refine .inr (.inr (.of_no_word_bytes ?_ ?_
        (Token.not_hasNumberKind_of_unknown rfl rfl fun digit => notWordByte (.inr digit))))
      · intro other member
        rwa [List.mem_singleton.mp member]
      · rintro (same | ⟨_, same⟩) <;> cases same

theorem Token.IsWordRun.hasWordKind {token : Token} {lexeme behind : Bytes}
    (word : token.IsWordRun lexeme behind) : token.HasWordKind := by
  by_cases reserved : ∃ keyword : Keyword, lexeme = keyword.bytes
  · obtain ⟨keyword, isKeyword⟩ := reserved
    exact .inr ⟨keyword, ((word.keyword_iff keyword).mpr isKeyword).1⟩
  · exact .inl (word.identifier_iff.mpr (not_exists.mp reserved)).1

theorem Token.IsNumberRun.hasNumberKind {token : Token} {lexeme behind : Bytes}
    (number : token.IsNumberRun lexeme behind) : token.HasNumberKind := by
  by_cases isInteger : token.kind = .integer
  · exact .inl isInteger
  · by_cases isFloat : token.kind = .float
    · exact .inr (.inl isFloat)
    · have isUnknown := number.unknown_iff.mpr
        ⟨mt number.integer_iff.mpr isInteger, mt number.float_iff.mpr isFloat⟩
      exact .inr (.inr ⟨isUnknown, lexeme, number.text_eq, number.begins⟩)

theorem Token.HasWordKind.not_hasNumberKind {token : Token} (word : token.HasWordKind) :
    ¬ token.HasNumberKind := by
  rintro (same | same | ⟨same, -⟩) <;> rcases word with other | ⟨_, other⟩ <;>
    rw [same] at other <;> cases other

theorem BeginsWith.unique {sort other : UInt8 → Prop} {text : Bytes}
    (begins : BeginsWith sort text) (beginsToo : BeginsWith other text) :
    ∃ byte, sort byte ∧ other byte := by
  obtain ⟨first, isFirst, isSort⟩ := begins
  obtain ⟨second, isSecond, isOther⟩ := beginsToo
  exact ⟨first, isSort, Option.some.inj (isFirst.symm.trans isSecond) ▸ isOther⟩

theorem BeginsWith.imp {sort other : UInt8 → Prop} (implies : ∀ byte, sort byte → other byte)
    {text : Bytes} (begins : BeginsWith sort text) : BeginsWith other text := by
  obtain ⟨first, isFirst, isSort⟩ := begins
  exact ⟨first, isFirst, implies first isSort⟩

theorem not_letter_and_digit : ¬ ∃ byte, IsLetterByte byte ∧ IsDigitByte byte := by
  have apart : ∀ byte, ¬ (IsLetterByte byte ∧ IsDigitByte byte) := by decide +kernel
  rintro ⟨byte, both⟩
  exact apart byte both

namespace Tile

variable {byte : UInt8} {rest behind : Bytes} {tile : Tile} {found : Token} {lexeme : Bytes}

theorem Leads.word_or_number (leads : Leads byte rest (.token found lexeme))
    (split : byte :: rest = lexeme ++ behind) :
    found.IsWordRun lexeme behind ∨ found.IsNumberRun lexeme behind ∨
      found.IsOther lexeme behind := by
  cases leads with
  | lexeme leads => exact leads.word_or_number split
  | newline isBreak isNewline =>
      refine .inr (.inr (.of_no_word_bytes ?_ ?_ ?_))
      · intro other member
        rw [List.mem_singleton.mp member]
        exact not_isWordByte_lineFeed
      · rintro (same | ⟨_, same⟩) <;> rw [isNewline] at same <;> cases same
      · rintro (same | same | ⟨same, -⟩) <;> rw [isNewline] at same <;> cases same

theorem Leads.not_isWordByte_blank {other : UInt8} (leads : Leads byte rest (.blank other)) :
    ¬ IsWordByte other := by
  cases leads with
  | blank isClass => exact not_isWordByte_of_class isClass (by decide)

theorem Leads.not_isWordByte_dropped {other : UInt8} (leads : Leads byte rest (.dropped other)) :
    ¬ IsWordByte other := by
  cases leads with
  | dropped isClass => exact not_isWordByte_of_class isClass (by decide)

/-- No word goes on from one tile to the next. -/
theorem Leads.apart (leads : Leads byte rest tile) (split : byte :: rest = tile.bytes ++ behind) :
    Apart tile.bytes behind := by
  intro last next isLast isNext both
  cases tile with
  | token found lexeme =>
      rcases leads.word_or_number split with word | number | other
      · exact word.run.stops next isNext both.2
      · exact number.run.stops next isNext (.inl both.2)
      · exact other.apart last next isLast isNext both
  | comment bytes =>
      cases leads with
      | comment leads =>
          rw [leads.head?_behind_comment split isNext] at both
          exact not_isWordByte_lineFeed both.2
  | blank other =>
      obtain rfl := Option.some.inj isLast
      exact leads.not_isWordByte_blank both.1
  | dropped other =>
      obtain rfl := Option.some.inj isLast
      exact leads.not_isWordByte_dropped both.1

/-- What is required of a tile between its neighbours for words and numbers to be
maximal runs.  A token that begins like a word or has the kind of one is a word, and
likewise for numbers. -/
structure RunsMaximally (before after : List Tile) (tile : Tile) : Prop where
  apart : Apart (bytesOf before) tile.bytes
  word_bytes : ∀ byte ∈ tile.bytes, IsWordByte byte →
    (∃ bytes, tile = .comment bytes) ∨ ∃ found lexeme, tile = .token found lexeme ∧
      (found.IsQuoted ∨ found.IsWordRun lexeme (bytesOf after) ∨
        found.IsNumberRun lexeme (bytesOf after))
  words : ∀ found lexeme, tile = .token found lexeme →
    BeginsWith IsLetterByte lexeme ∨ found.HasWordKind →
      found.IsWordRun lexeme (bytesOf after)
  numbers : ∀ found lexeme, tile = .token found lexeme →
    BeginsWith IsDigitByte lexeme ∨ found.HasNumberKind →
      found.IsNumberRun lexeme (bytesOf after)

theorem Leads.word_bytes (leads : Leads byte rest tile)
    (split : byte :: rest = tile.bytes ++ behind) {other : UInt8} (member : other ∈ tile.bytes)
    (isByte : IsWordByte other) :
    (∃ bytes, tile = .comment bytes) ∨ ∃ found lexeme, tile = .token found lexeme ∧
      (found.IsQuoted ∨ found.IsWordRun lexeme behind ∨ found.IsNumberRun lexeme behind) := by
  cases tile with
  | token found lexeme =>
      refine .inr ⟨found, lexeme, rfl, ?_⟩
      rcases leads.word_or_number split with word | number | isOther
      · exact .inr (.inl word)
      · exact .inr (.inr number)
      · exact .inl (isOther.word_bytes.resolve_right fun none => none other member isByte)
  | comment bytes => exact .inl ⟨bytes, rfl⟩
  | blank single =>
      rw [List.mem_singleton.mp member] at isByte
      exact absurd isByte leads.not_isWordByte_blank
  | dropped single =>
      rw [List.mem_singleton.mp member] at isByte
      exact absurd isByte leads.not_isWordByte_dropped

theorem Leads.isWordRun (leads : Leads byte rest (.token found lexeme))
    (split : byte :: rest = lexeme ++ behind)
    (isWord : BeginsWith IsLetterByte lexeme ∨ found.HasWordKind) :
    found.IsWordRun lexeme behind := by
  rcases leads.word_or_number split with word | number | other
  · exact word
  · rcases isWord with begins | kind
    · exact absurd (begins.unique number.begins) not_letter_and_digit
    · exact absurd number.hasNumberKind kind.not_hasNumberKind
  · rcases isWord with begins | kind
    · exact absurd (begins.imp fun _ => .inl) other.begins
    · exact absurd kind other.notWord

theorem Leads.isNumberRun (leads : Leads byte rest (.token found lexeme))
    (split : byte :: rest = lexeme ++ behind)
    (isNumber : BeginsWith IsDigitByte lexeme ∨ found.HasNumberKind) :
    found.IsNumberRun lexeme behind := by
  rcases leads.word_or_number split with word | number | other
  · rcases isNumber with begins | kind
    · exact absurd (word.begins.unique begins) not_letter_and_digit
    · exact absurd kind word.hasWordKind.not_hasNumberKind
  · exact number
  · rcases isNumber with begins | kind
    · exact absurd (begins.imp fun _ => .inr) other.begins
    · exact absurd kind other.notNumber

/-- The tiles of a source meet what words and numbers ask of them. -/
theorem runsMaximally_of_tilesFrom_eq {cursor : Cursor} {source : Bytes}
    {before after : List Tile}
    (parts : tilesFrom cursor (cut source) = before ++ tile :: after) :
    tile.RunsMaximally before after := by
  obtain ⟨byte, rest, split, leads⟩ := leads_of_tilesFrom_eq parts
  refine ⟨?_, fun other member isByte => leads.word_bytes split member isByte, ?_, ?_⟩
  · -- The tile in front was cut where no word goes on.
    rcases List.eq_nil_or_concat before with rfl | ⟨earlier, previous, isConcat⟩
    · intro last next isLast
      cases isLast
    · rw [List.concat_eq_append] at isConcat
      subst isConcat
      rw [List.append_assoc, List.singleton_append] at parts
      obtain ⟨_, _, splitBefore, leadsBefore⟩ := leads_of_tilesFrom_eq parts
      intro last next isLast isNext
      rw [bytesOf_append, bytesOf_singleton,
        List.getLast?_append_of_ne_nil _ leadsBefore.bytes_ne_nil] at isLast
      refine leadsBefore.apart splitBefore last next isLast ?_
      rw [bytesOf_cons, List.head?_append, isNext, Option.some_or]
  · rintro found lexeme rfl isWord
    exact leads.isWordRun split isWord
  · rintro found lexeme rfl isNumber
    exact leads.isNumberRun split isNumber

/-! ## One tile for each byte -/

/-- Whether a tile behind others has a byte of the source at an offset. -/
def Holds (before : List Tile) (tile : Tile) (offset : Nat) (byte : UInt8) : Prop :=
  ∃ index, (bytesOf before).length + index = offset ∧ tile.bytes[index]? = some byte

theorem exists_holds {tiles : List Tile} {offset : Nat} {byte : UInt8}
    (isByte : (bytesOf tiles)[offset]? = some byte) :
    ∃ before tile after, tiles = before ++ tile :: after ∧ Holds before tile offset byte := by
  induction tiles generalizing offset with
  | nil => cases isByte
  | cons first tiles ih =>
      rw [bytesOf_cons] at isByte
      by_cases inFirst : offset < first.bytes.length
      · rw [List.getElem?_append_left inFirst] at isByte
        exact ⟨[], first, tiles, rfl, offset, Nat.zero_add offset, isByte⟩
      · rw [List.getElem?_append_right (Nat.le_of_not_lt inFirst)] at isByte
        obtain ⟨before, tile, after, rfl, index, place, holds⟩ := ih isByte
        refine ⟨first :: before, tile, after, rfl, index, ?_, holds⟩
        rw [bytesOf_cons, List.length_append]
        omega

/-- Of two tiles that have a byte at one offset neither is in front of the other. -/
theorem Holds.eq_nil {before more after others : List Tile} {tile other : Tile} {offset : Nat}
    {byte : UInt8} (holds : Holds before tile offset byte)
    (holdsToo : Holds (before ++ more) other offset byte)
    (same : tile :: after = more ++ other :: others) : more = [] := by
  cases more with
  | nil => rfl
  | cons first more =>
      obtain ⟨rfl, -⟩ := List.cons.inj same
      obtain ⟨index, place, isByte⟩ := holds
      obtain ⟨later, placeToo, -⟩ := holdsToo
      obtain ⟨bound, -⟩ := List.getElem?_eq_some_iff.mp isByte
      rw [bytesOf_append, bytesOf_cons, List.length_append, List.length_append] at placeToo
      omega

theorem existsUnique_holds {tiles : List Tile} {offset : Nat} {byte : UInt8}
    (isByte : (bytesOf tiles)[offset]? = some byte) :
    ∃! before, ∃ tile after,
      tiles = before ++ tile :: after ∧ Holds before tile offset byte := by
  obtain ⟨before, tile, after, parts, holds⟩ := exists_holds isByte
  refine ⟨before, ⟨tile, after, parts, holds⟩, ?_⟩
  rintro others ⟨other, behind, otherParts, holdsToo⟩
  rcases List.append_eq_append_iff.mp (parts.symm.trans otherParts) with
    ⟨more, rfl, same⟩ | ⟨more, rfl, same⟩
  · rw [holds.eq_nil holdsToo same, List.append_nil]
  · rw [holdsToo.eq_nil holds same, List.append_nil]

end Tile

/-- A source is cut into the lexemes of its tokens in order, comments, single blanks and
single dropped bytes, and every byte belongs to exactly one of these.  A byte of a word
belongs to a comment, to a string, closed or not, or to a token that is the longest word
or number at its place.  Words and numbers have the kinds that their bytes ask for, and
no other token has one of these kinds. -/
theorem words_and_numbers_are_maximal (source : Bytes) :
    ∃ tiles : List Tile,
      tiles.flatMap Tile.bytes = source ∧
      tiles.filterMap Tile.token? =
        ((scan source).filter fun token => !token.kind.isSynthetic) ∧
      (∀ offset byte, source[offset]? = some byte →
        ∃! before, ∃ tile after,
          tiles = before ++ tile :: after ∧ Tile.Holds before tile offset byte) ∧
      ∀ before tile after, tiles = before ++ tile :: after →
        tile.Fits before after ∧ tile.RunsMaximally before after := by
  refine ⟨tilesFrom .start (cut source), bytesOf_tilesFrom _ source,
    filterMap_token?_tilesFrom _ source, fun offset byte isByte => ?_,
    fun before tile after parts => ⟨?_, Tile.runsMaximally_of_tilesFrom_eq parts⟩⟩
  · rw [← bytesOf_tilesFrom .start source] at isByte
    exact Tile.existsUnique_holds isByte
  · exact Tile.fits_of_allFit (allFit_tilesFrom .start source) parts

end LayoutLexer
