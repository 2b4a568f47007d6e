import LayoutLexer.Proofs.MaximalRuns
import LayoutLexer.Proofs.SpelledLine

/-!
# Symbols are longest matches

The search for a symbol starts from a whole run of punctuation, which may go on into quotes,
hashes, underscores and any number of further symbols, and gives back one byte at a time.  It
comes to the longest symbol that begins the rest of the source, so what else the run holds has
no influence, and looking at three bytes is enough.

No symbol goes beyond the punctuation that symbols are made of.  So a run of it is divided by
the table of symbols alone, each time at the end of the longest symbol that begins what is left.
-/

namespace LayoutLexer

/-- A byte of ASCII punctuation that is no underscore, no quote and no hash. -/
def IsSignByte (byte : UInt8) : Prop :=
  33 ≤ byte ∧ byte ≤ 126 ∧ ¬ IsWordByte byte ∧ byte ≠ 34 ∧ byte ≠ 39 ∧ byte ≠ 35

instance (byte : UInt8) : Decidable (IsSignByte byte) :=
  inferInstanceAs (Decidable (_ ∧ _))

theorem class_eq_punctuation_iff : ∀ {byte : UInt8},
    ByteClass.of byte = .punctuation ↔ IsSignByte byte := by
  decide +kernel

theorem Symbol.isSignByte_of_mem_bytes (sign : Symbol) : ∀ byte ∈ sign.bytes, IsSignByte byte := by
  intro byte member
  exact class_eq_punctuation_iff.mp (sign.class_of_mem_bytes byte member)

/-! ## The longest symbol of a text -/

namespace Symbol

/-- No other symbol that begins a text is longer than this one. -/
structure IsLongest (sign : Symbol) (text : Bytes) : Prop where
  isPrefix : sign.bytes <+: text
  longest : ∀ other : Symbol, other.bytes <+: text → other.bytes.length ≤ sign.bytes.length

/-- What a search of a text should find: the longest symbol that begins the text, or nothing
if none does. -/
def Finds (text : Bytes) : Option Symbol → Prop
  | some sign => sign.IsLongest text
  | none => ∀ sign : Symbol, ¬ sign.bytes <+: text

variable {text other : Bytes} {sign : Symbol} {found : Option Symbol}

theorem bytes_injective {first second : Symbol} (same : first.bytes = second.bytes) :
    first = second :=
  Option.some.inj ((ofBytes?_eq_some_iff.mpr rfl).symm.trans (ofBytes?_eq_some_iff.mpr same))

theorem length_bytes_le (sign : Symbol) : sign.bytes.length ≤ 3 := by
  have listed : ∀ other ∈ all, other.bytes.length ≤ 3 := by decide +kernel
  exact listed sign sign.mem_all

theorem IsLongest.unique {first second : Symbol} (isFirst : first.IsLongest text)
    (isSecond : second.IsLongest text) : first = second := by
  have sameLength : first.bytes.length = second.bytes.length :=
    Nat.le_antisymm (isSecond.longest first isFirst.isPrefix)
      (isFirst.longest second isSecond.isPrefix)
  have begins : first.bytes <+: second.bytes :=
    List.prefix_of_prefix_length_le isFirst.isPrefix isSecond.isPrefix sameLength.le
  exact bytes_injective (begins.eq_of_length sameLength)

theorem Finds.unique {again : Option Symbol} (finds : Finds text found)
    (findsAgain : Finds text again) : found = again := by
  cases found with
  | none =>
      cases again with
      | none => rfl
      | some sign => exact absurd findsAgain.isPrefix (finds sign)
  | some sign =>
      cases again with
      | none => exact absurd finds.isPrefix (findsAgain sign)
      | some same => rw [finds.unique findsAgain]

/-- Only which symbols begin a text matters. -/
theorem Finds.congr (finds : Finds text found)
    (same : ∀ sign : Symbol, sign.bytes <+: text ↔ sign.bytes <+: other) :
    Finds other found := by
  cases found with
  | none => exact fun sign begins => finds sign ((same sign).mpr begins)
  | some sign =>
      exact ⟨(same sign).mp finds.isPrefix,
        fun longer begins => finds.longest longer ((same longer).mpr begins)⟩

theorem finds_bytes (sign : Symbol) : Finds sign.bytes (some sign) :=
  ⟨List.prefix_refl _, fun _ begins => begins.length_le⟩

/-- Giving back one byte at a time ends at the longest symbol among the first bytes. -/
theorem finds_backOff? (text : Bytes) (length : Nat) :
    Finds (text.take length) (backOff? text length) := by
  induction length with
  | zero =>
      intro sign begins
      rw [List.take_zero, List.prefix_nil] at begins
      exact sign.bytes_ne_nil begins
  | succ length ih =>
      rw [backOff?]
      cases found : ofBytes? (text.take (length + 1)) with
      | some sign =>
          rw [ofBytes?_eq_some_iff.mp found]
          exact sign.finds_bytes
      | none =>
          refine ih.congr fun sign => ?_
          rw [List.prefix_take_iff, List.prefix_take_iff]
          constructor
          · rintro ⟨begins, bound⟩
            exact ⟨begins, by omega⟩
          · rintro ⟨begins, bound⟩
            refine ⟨begins, Nat.le_of_lt_succ (Nat.lt_of_le_of_ne bound fun whole => ?_)⟩
            -- All the bytes would be a symbol, which has just been ruled out.
            have isTake := List.prefix_iff_eq_take.mp begins
            rw [whole] at isTake
            rw [ofBytes?_eq_some_iff.mpr isTake.symm] at found
            cases found

/-- A run of bytes that are all accepted begins a text exactly if it begins the accepted ones. -/
theorem prefix_takeWhile_iff {accepts : UInt8 → Bool} {run : Bytes}
    (all : ∀ byte ∈ run, accepts byte = true) (text : Bytes) :
    run <+: text.takeWhile accepts ↔ run <+: text := by
  constructor
  · intro begins
    exact begins.trans (List.takeWhile_prefix accepts)
  · rintro ⟨behind, rfl⟩
    rw [List.takeWhile_append_of_pos all]
    exact List.prefix_append run _

/-- The search in the run of punctuation finds what begins the rest of the source. -/
theorem finds_leading? {byte : UInt8} (isSign : isPunctuation byte = true) (rest : Bytes) :
    Finds (byte :: rest) (leading? (byte :: rest.takeWhile isPunctuation)) := by
  have finds := finds_backOff? (byte :: rest.takeWhile isPunctuation)
    (byte :: rest.takeWhile isPunctuation).length
  rw [List.take_length, ← leading?] at finds
  refine finds.congr fun sign => ?_
  rw [← List.takeWhile_cons_of_pos isSign]
  exact prefix_takeWhile_iff
    (fun other member => isPunctuation_of_class (sign.class_of_mem_bytes other member)) _

/-- What is found when only the first three, two and one bytes of a text are looked up. -/
def amongThree? (text : Bytes) : Option Symbol :=
  ofBytes? (text.take 3) <|> ofBytes? (text.take 2) <|> ofBytes? (text.take 1)

theorem amongThree?_eq_backOff? (text : Bytes) : amongThree? text = backOff? text 3 := by
  simp only [amongThree?, backOff?]
  cases ofBytes? (text.take 3) <;> cases ofBytes? (text.take 2) <;>
    cases ofBytes? (text.take 1) <;> rfl

theorem finds_amongThree? (text : Bytes) : Finds text (amongThree? text) := by
  rw [amongThree?_eq_backOff?]
  refine (finds_backOff? text 3).congr fun sign => ?_
  rw [List.prefix_take_iff]
  exact and_iff_left sign.length_bytes_le

end Symbol

/-! ## Pieces of punctuation -/

namespace Piece

/-- The piece for what a search has found at a byte. -/
def ofFound (byte : UInt8) : Option Symbol → Piece
  | some sign => lexeme (.symbol sign) none sign.bytes
  | none => lexeme .unknown (some [byte]) [byte]

variable {byte : UInt8} {rest : Bytes} {found : Option Symbol}

theorem first_eq_ofFound (isSign : IsSignByte byte) (finds : Symbol.Finds (byte :: rest) found) :
    first byte rest = ofFound byte found := by
  have isClass := class_eq_punctuation_iff.mpr isSign
  have same := (Symbol.finds_leading? (isPunctuation_of_class isClass) rest).unique finds
  rw [first, isClass]
  dsimp only
  rw [operator, same]
  cases found <;> rfl

theorem isSignByte_of_mem_ofFound (isSign : IsSignByte byte) (found : Option Symbol) :
    ∀ other ∈ (ofFound byte found).bytes, IsSignByte other := by
  cases found with
  | some sign => exact sign.isSignByte_of_mem_bytes
  | none =>
      intro other member
      rw [List.mem_singleton.mp member]
      exact isSign

/-- A piece cut off in front of one text is cut off in front of any other that makes no longer
symbol of it. -/
theorem cut_ofFound_append (isSign : IsSignByte byte)
    (finds : Symbol.Finds (byte :: rest) found) {after : Bytes}
    (noneLonger : ∀ sign : Symbol, sign.bytes <+: (ofFound byte found).bytes ++ after →
      sign.bytes.length ≤ (ofFound byte found).bytes.length) :
    cut ((ofFound byte found).bytes ++ after) = ofFound byte found :: cut after := by
  have findsAgain : Symbol.Finds ((ofFound byte found).bytes ++ after) found := by
    cases found with
    | some sign => exact ⟨List.prefix_append _ _, noneLonger⟩
    | none =>
        intro sign begins
        have short : sign.bytes <+: [byte] :=
          List.prefix_of_prefix_length_le begins (List.prefix_append [byte] after)
            (noneLonger sign begins)
        exact finds sign (short.trans (List.prefix_append [byte] rest))
  have leads := leads_iff.mpr (first_eq_ofFound isSign finds).symm
  obtain ⟨tail, bytes⟩ := leads.exists_tail
  rw [bytes, List.cons_append] at findsAgain ⊢
  have isFirst := first_eq_ofFound isSign findsAgain
  rw [← isFirst]
  apply cut_cons
  rw [isFirst, bytes, List.cons_append]

end Piece

/-! ## Runs of punctuation -/

/-- A token of some width at a place. -/
def Cursor.tokenAt (cursor : Cursor) (kind : Kind) (text : Option Bytes) (width : Nat) : Token where
  kind
  text
  line := cursor.line
  startColumn := cursor.column
  endColumn := cursor.column + width

/-- The place so many bytes further on the same line. -/
def Cursor.past (cursor : Cursor) (width : Nat) : Cursor :=
  { cursor with
    offset := cursor.offset + width
    column := cursor.column + width }

/-- The tokens of a run that is divided from the front, each time behind the longest symbol that
begins what is left, or behind one byte where none does. -/
inductive GreedyTokens : Cursor → Bytes → List Token → Prop
  | nil {cursor : Cursor} : GreedyTokens cursor [] []
  | symbol {cursor : Cursor} {run rest : Bytes} {sign : Symbol} {tokens : List Token} :
      sign.IsLongest run → run = sign.bytes ++ rest →
      GreedyTokens (cursor.past sign.bytes.length) rest tokens →
      GreedyTokens cursor run (cursor.tokenAt (.symbol sign) none sign.bytes.length :: tokens)
  | unknown {cursor : Cursor} {byte : UInt8} {rest : Bytes} {tokens : List Token} :
      (∀ sign : Symbol, ¬ sign.bytes <+: byte :: rest) →
      GreedyTokens (cursor.past 1) rest tokens →
      GreedyTokens cursor (byte :: rest)
        (cursor.tokenAt .unknown (some [byte]) 1 :: tokens)

theorem GreedyTokens.unique {cursor : Cursor} {run : Bytes} {tokens others : List Token}
    (greedy : GreedyTokens cursor run tokens) (again : GreedyTokens cursor run others) :
    tokens = others := by
  induction greedy generalizing others with
  | nil =>
      cases again with
      | nil => rfl
      | @symbol _ _ _ sign _ isLongest _ _ =>
          exact absurd (List.prefix_nil.mp isLongest.isPrefix) sign.bytes_ne_nil
  | @symbol cursor run rest sign tokens isLongest parts _ ih =>
      cases again with
      | nil => exact absurd (List.prefix_nil.mp isLongest.isPrefix) sign.bytes_ne_nil
      | symbol isLongestAgain partsAgain greedyAgain =>
          obtain rfl := isLongest.unique isLongestAgain
          obtain rfl := List.append_cancel_left (parts.symm.trans partsAgain)
          rw [ih greedyAgain]
      | unknown none _ => exact absurd isLongest.isPrefix (none sign)
  | unknown none _ ih =>
      cases again with
      | @symbol _ _ _ sign _ isLongest _ _ => exact absurd isLongest.isPrefix (none sign)
      | unknown _ greedyAgain => rw [ih greedyAgain]

variable {byte : UInt8} {run rest : Bytes}

/-- A symbol that begins a run with something else behind it lies in the run. -/
theorem prefix_run_append_iff (allSigns : ∀ byte ∈ run, IsSignByte byte)
    (stops : ∀ next, rest.head? = some next → ¬ IsSignByte next) (sign : Symbol) :
    sign.bytes <+: run ++ rest ↔ sign.bytes <+: run := by
  have isRun : (run ++ rest).takeWhile (fun byte => decide (IsSignByte byte)) = run :=
    takeWhile_run_append (fun byte member => decide_eq_true (allSigns byte member))
      fun next isNext => decide_eq_false (stops next isNext)
  have within := Symbol.prefix_takeWhile_iff
    (fun byte member => decide_eq_true (sign.isSignByte_of_mem_bytes byte member)) (run ++ rest)
  rw [isRun] at within
  exact within.symm

/-- The first piece of a run is what the table of symbols finds in the run alone. -/
theorem cut_run_append (allSigns : ∀ other ∈ byte :: run, IsSignByte other)
    (stops : ∀ next, rest.head? = some next → ¬ IsSignByte next) :
    ∃ found left, Symbol.Finds (byte :: run) found ∧
      byte :: run = (Piece.ofFound byte found).bytes ++ left ∧
      cut (byte :: run ++ rest) = Piece.ofFound byte found :: cut (left ++ rest) := by
  have findsMore :
      Symbol.Finds (byte :: (run ++ rest)) (Symbol.amongThree? (byte :: run ++ rest)) :=
    Symbol.finds_amongThree? _
  generalize Symbol.amongThree? (byte :: run ++ rest) = found at findsMore
  have finds : Symbol.Finds (byte :: run) found :=
    findsMore.congr (prefix_run_append_iff allSigns stops)
  have isSign := allSigns byte List.mem_cons_self
  have isFirst := Piece.first_eq_ofFound isSign findsMore
  obtain ⟨left, parts⟩ := Piece.first_bytes_isPrefix byte run
  rw [Piece.first_eq_ofFound isSign finds] at parts
  refine ⟨found, left, finds, parts.symm, ?_⟩
  rw [List.cons_append, ← isFirst]
  apply cut_cons
  rw [isFirst, ← List.append_assoc, parts, List.cons_append]

theorem Cursor.advance_ofFound (cursor : Cursor) (byte : UInt8) (found : Option Symbol) :
    cursor.advance (Piece.ofFound byte found) =
      cursor.past (Piece.ofFound byte found).bytes.length := by
  cases found <;> rfl

theorem Cursor.past_past (cursor : Cursor) (first second : Nat) :
    (cursor.past first).past second = cursor.past (first + second) := by
  simp only [past, Nat.add_assoc]

theorem GreedyTokens.cons_ofFound {cursor : Cursor} {found : Option Symbol} {left : Bytes}
    {tokens : List Token} (finds : Symbol.Finds (byte :: run) found)
    (parts : byte :: run = (Piece.ofFound byte found).bytes ++ left)
    (greedy : GreedyTokens (cursor.past (Piece.ofFound byte found).bytes.length) left tokens) :
    GreedyTokens cursor (byte :: run)
      (PlacedPiece.tokens { cursor, piece := Piece.ofFound byte found } ++ tokens) := by
  cases found with
  | some sign => exact .symbol finds parts greedy
  | none =>
      obtain rfl := (List.cons.inj parts).2
      exact .unknown finds greedy

/-- The pieces of a run take up the run and give its greedy tokens. -/
theorem exists_greedyTokens (allSigns : ∀ byte ∈ run, IsSignByte byte)
    (stops : ∀ next, rest.head? = some next → ¬ IsSignByte next) (cursor : Cursor) :
    ∃ operators : List PlacedPiece,
      place cursor (cut (run ++ rest)) = operators ++ place (cursor.past run.length) (cut rest) ∧
      operators.flatMap (fun placed => placed.piece.bytes) = run ∧
      GreedyTokens cursor run (operators.flatMap PlacedPiece.tokens) := by
  induction lengthEq : run.length using Nat.strongRecOn generalizing run cursor with
  | ind length ih =>
      cases run with
      | nil =>
          subst lengthEq
          exact ⟨[], rfl, rfl, .nil⟩
      | cons byte run =>
          obtain ⟨found, left, finds, parts, cutEq⟩ := cut_run_append allSigns stops
          have isFirst := Piece.first_eq_ofFound (allSigns byte List.mem_cons_self) finds
          have notEmpty := isFirst ▸ Piece.first_bytes_ne_nil byte run
          have positive := List.length_pos_iff.mpr notEmpty
          have total := congrArg List.length parts
          rw [List.length_append, lengthEq] at total
          obtain ⟨operators, placed, bytes, greedy⟩ := ih left.length (by omega)
            (fun other member => allSigns other (parts ▸ List.mem_append_right _ member))
            (cursor.past (Piece.ofFound byte found).bytes.length) rfl
          refine ⟨{ cursor, piece := Piece.ofFound byte found } :: operators, ?_, ?_, ?_⟩
          · rw [cutEq, place_cons, Cursor.advance_ofFound, placed, Cursor.past_past, ← total,
              List.cons_append]
          · rw [List.flatMap_cons, bytes, parts]
          · rw [List.flatMap_cons]
            exact greedy.cons_ofFound finds parts

/-! ## Operators of a source -/

/-- The pieces from some place on are the cut of what is left of the source there. -/
theorem place_cut_of_eq_append {source left : Bytes} {cursor : Cursor}
    (atLeft : source.drop cursor.offset = left) {before after : List PlacedPiece}
    {placed : PlacedPiece} (parts : place cursor (cut left) = before ++ placed :: after) :
    placed :: after = place placed.cursor (cut (source.drop placed.cursor.offset)) := by
  induction left using cut_induction generalizing cursor before with
  | nil => simp at parts
  | cons byte rest behind split ih =>
      rw [cut_cons split, place_cons] at parts
      cases before with
      | nil =>
          obtain ⟨rfl, rfl⟩ := List.cons.inj parts
          rw [atLeft, cut_cons split, place_cons]
      | cons first before =>
          have next : source.drop (cursor.advance (Piece.first byte rest)).offset = behind := by
            rw [Cursor.offset_advance, ← List.drop_drop, atLeft, split, List.drop_left]
          exact ih next (List.cons.inj parts).2

/-- A piece that gives one token of some width and moves by that width. -/
structure PlacedPiece.IsToken (placed : PlacedPiece) (kind : Kind) (text : Option Bytes)
    (width : Nat) : Prop where
  tokens_eq : placed.tokens = [placed.cursor.tokenAt kind text width]
  next_eq : placed.next = placed.cursor.past width

/-- What is to stand at a place where the rest of the source begins with punctuation.  It is the
longest symbol that begins the rest, or one unknown byte if none does.  Looking up three, two and
one bytes finds the same.  The bytes behind it have no influence as long as they make no longer
symbol of it, and it takes up no underscore, quote or hash. -/
structure PlacedPiece.TakesLongest (placed : PlacedPiece) (byte : UInt8) (rest : Bytes) :
    Prop where
  symbol : (∃ sign : Symbol, sign.bytes <+: byte :: rest) →
    ∃ sign : Symbol, sign.IsLongest (byte :: rest) ∧
      placed.IsToken (.symbol sign) none sign.bytes.length
  unknown : (∀ sign : Symbol, ¬ sign.bytes <+: byte :: rest) →
    placed.IsToken .unknown (some [byte]) 1
  amongThree : placed.piece = Piece.ofFound byte (Symbol.amongThree? (byte :: rest))
  goesOn : ∀ after, (∀ sign : Symbol, sign.bytes <+: placed.piece.bytes ++ after →
    sign.bytes.length ≤ placed.piece.bytes.length) →
      cut (placed.piece.bytes ++ after) = placed.piece :: cut after
  onlySigns : ∀ other ∈ placed.piece.bytes, IsSignByte other

theorem PlacedPiece.takesLongest_ofFound (isSign : IsSignByte byte) {found : Option Symbol}
    (finds : Symbol.Finds (byte :: rest) found) (cursor : Cursor) :
    TakesLongest { cursor, piece := Piece.ofFound byte found } byte rest where
  symbol := by
    rintro ⟨begins, isPrefix⟩
    cases found with
    | some sign => exact ⟨sign, finds, rfl, rfl⟩
    | none => exact absurd isPrefix (finds begins)
  unknown := by
    intro none
    cases found with
    | some sign => exact absurd finds.isPrefix (none sign)
    | none => exact ⟨rfl, rfl⟩
  amongThree := by rw [finds.unique (Symbol.finds_amongThree? _)]
  goesOn := fun _ noneLonger => Piece.cut_ofFound_append isSign finds noneLonger
  onlySigns := Piece.isSignByte_of_mem_ofFound isSign found

/-- Where the rest of a source begins with punctuation the longest symbol that begins the rest is
taken up, or one unknown byte if there is none.  A whole run of punctuation, up to where something
else comes, gives the tokens that dividing it by the table of symbols from the front gives, and no
others. -/
theorem operators_take_longest {source : Bytes} {before after : List PlacedPiece}
    {placed : PlacedPiece} (parts : placedPieces source = before ++ placed :: after) :
    (∀ byte rest, source.drop placed.cursor.offset = byte :: rest → IsSignByte byte →
      placed.TakesLongest byte rest) ∧
    ∀ run rest, source.drop placed.cursor.offset = run ++ rest →
      (∀ byte ∈ run, IsSignByte byte) →
      (∀ next, rest.head? = some next → ¬ IsSignByte next) →
      ∃ operators later, placed :: after = operators ++ later ∧
        operators.flatMap (fun operator => operator.piece.bytes) = run ∧
        ∀ tokens, GreedyTokens placed.cursor run tokens ↔
          tokens = operators.flatMap PlacedPiece.tokens := by
  have atStart : source.drop Cursor.start.offset = source := rfl
  have onward := place_cut_of_eq_append atStart parts
  constructor
  · intro byte rest left isSign
    have finds := Symbol.finds_amongThree? (byte :: rest)
    obtain ⟨behind, split⟩ := Piece.first_bytes_isPrefix byte rest
    rw [left, cut_cons split.symm, place_cons, Piece.first_eq_ofFound isSign finds] at onward
    have here := (List.cons.inj onward).1
    rw [here]
    exact PlacedPiece.takesLongest_ofFound isSign finds placed.cursor
  · intro run rest left allSigns stops
    obtain ⟨operators, placedEq, bytes, greedy⟩ :=
      exists_greedyTokens allSigns stops placed.cursor
    rw [left, placedEq] at onward
    refine ⟨operators, _, onward, bytes, fun tokens => ?_⟩
    constructor
    · intro greedyAgain
      exact greedyAgain.unique greedy
    · rintro rfl
      exact greedy

/-- A run in which one symbol is found among its beginnings and the next is not, behind a word and
in front of another. -/
theorem operators_take_longest_ellipsis :
    let source := utf8 "x...!>>=..>>_"
    let placed : PlacedPiece :=
      { cursor := { offset := 1, line := 0, lineStart := 0, column := 1, level := 0 }
        piece := .lexeme (.symbol .ellipsis) none (utf8 "...") }
    placedPieces source =
        (placedPieces source).take 1 ++ placed :: (placedPieces source).drop 2 ∧
      placed.TakesLongest 46 (utf8 "..!>>=..>>_") ∧
      ∃ operators later, placed :: (placedPieces source).drop 2 = operators ++ later ∧
        operators.flatMap (fun operator => operator.piece.bytes) = utf8 "...!>>=..>>" ∧
        ∀ tokens, GreedyTokens placed.cursor (utf8 "...!>>=..>>") tokens ↔
          tokens = operators.flatMap PlacedPiece.tokens := by
  intro source placed
  have parts : placedPieces source =
      (placedPieces source).take 1 ++ placed :: (placedPieces source).drop 2 := by
    decide +kernel
  obtain ⟨takes, divided⟩ := operators_take_longest parts
  refine ⟨parts, takes _ _ rfl (by decide), divided _ (utf8 "_") rfl (by decide +kernel) ?_⟩
  intro next isNext
  obtain rfl := Option.some.inj isNext
  decide

end LayoutLexer
