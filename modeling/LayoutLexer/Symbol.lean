import LayoutLexer.Bytes

/-!
# Symbols

The operators and delimiters of the language, their spellings, and how the
longest symbol is found in a run of punctuation.  The spellings are not closed
under shortening (`...` is a symbol and `..` is not), so the search starts from
the whole run and gives bytes back until a spelling is left.
-/

namespace LayoutLexer

/-- The operators and delimiters. -/
inductive Symbol where
  | leftParen
  | rightParen
  | comma
  | dot
  | semicolon
  | colon
  | plus
  | minus
  | slash
  | star
  | doubleStar
  | less
  | doubleLess
  | greater
  | doubleGreater
  | caret
  | bar
  | doubleBar
  | ampersand
  | doubleAmpersand
  | equals
  | plusEquals
  | minusEquals
  | slashEquals
  | starEquals
  | doubleStarEquals
  | lessEquals
  | doubleLessEquals
  | greaterEquals
  | doubleGreaterEquals
  | caretEquals
  | barEquals
  | ampersandEquals
  | arrow
  | ellipsis
  deriving DecidableEq, Repr

namespace Symbol

def all : List Symbol :=
  [leftParen, rightParen, comma, dot, semicolon, colon, plus, minus, slash,
    star, doubleStar, less, doubleLess, greater, doubleGreater, caret, bar,
    doubleBar, ampersand, doubleAmpersand, equals, plusEquals, minusEquals,
    slashEquals, starEquals, doubleStarEquals, lessEquals, doubleLessEquals,
    greaterEquals, doubleGreaterEquals, caretEquals, barEquals,
    ampersandEquals, arrow, ellipsis]

theorem mem_all (symbol : Symbol) : symbol ∈ all := by
  cases symbol <;> decide

/-- How a symbol is written in a source. -/
def spelling : Symbol → String
  | leftParen => "("
  | rightParen => ")"
  | comma => ","
  | dot => "."
  | semicolon => ";"
  | colon => ":"
  | plus => "+"
  | minus => "-"
  | slash => "/"
  | star => "*"
  | doubleStar => "**"
  | less => "<"
  | doubleLess => "<<"
  | greater => ">"
  | doubleGreater => ">>"
  | caret => "^"
  | bar => "|"
  | doubleBar => "||"
  | ampersand => "&"
  | doubleAmpersand => "&&"
  | equals => "="
  | plusEquals => "+="
  | minusEquals => "-="
  | slashEquals => "/="
  | starEquals => "*="
  | doubleStarEquals => "**="
  | lessEquals => "<="
  | doubleLessEquals => "<<="
  | greaterEquals => ">="
  | doubleGreaterEquals => ">>="
  | caretEquals => "^="
  | barEquals => "|="
  | ampersandEquals => "&="
  | arrow => "->"
  | ellipsis => "..."

def name : Symbol → String
  | leftParen => "LPAREN"
  | rightParen => "RPAREN"
  | comma => "COMMA"
  | dot => "DOT"
  | semicolon => "SEMICOLON"
  | colon => "COLON"
  | plus => "PLUS"
  | minus => "MINUS"
  | slash => "SLASH"
  | star => "STAR"
  | doubleStar => "STAR_STAR"
  | less => "LESS"
  | doubleLess => "LESS_LESS"
  | greater => "GREATER"
  | doubleGreater => "GREATER_GREATER"
  | caret => "CARET"
  | bar => "VBAR"
  | doubleBar => "VBAR_VBAR"
  | ampersand => "AMPER"
  | doubleAmpersand => "AMPER_AMPER"
  | equals => "EQ"
  | plusEquals => "PLUS_EQ"
  | minusEquals => "MINUS_EQ"
  | slashEquals => "SLASH_EQ"
  | starEquals => "STAR_EQ"
  | doubleStarEquals => "STAR_STAR_EQ"
  | lessEquals => "LESS_EQ"
  | doubleLessEquals => "LESS_LESS_EQ"
  | greaterEquals => "GREATER_EQ"
  | doubleGreaterEquals => "GREATER_GREATER_EQ"
  | caretEquals => "CARET_EQ"
  | barEquals => "VBAR_EQ"
  | ampersandEquals => "AMPER_EQ"
  | arrow => "RARROW"
  | ellipsis => "ELLIPSIS"

def bytes (symbol : Symbol) : Bytes :=
  utf8 symbol.spelling

def table : List (Bytes × Symbol) :=
  all.map fun symbol => (symbol.bytes, symbol)

def ofBytes? (text : Bytes) : Option Symbol :=
  table.lookup text

/-- Looking up a spelling inverts writing it. -/
theorem ofBytes?_eq_some_iff {text : Bytes} {symbol : Symbol} :
    ofBytes? text = some symbol ↔ text = symbol.bytes := by
  constructor
  · intro found
    obtain ⟨before, after, split, -⟩ := List.lookup_eq_some_iff.mp found
    have entry : (text, symbol) ∈ table := by simp [split]
    obtain ⟨listed, -, same⟩ := List.mem_map.mp entry
    cases same
    rfl
  · rintro rfl
    cases symbol <;> decide +kernel

/-- The symbol found among the first `length` bytes of a run by giving back one
byte at a time until what is left is a spelling. -/
def backOff? (run : Bytes) : (length : Nat) → Option Symbol
  | 0 => none
  | length + 1 =>
    match ofBytes? (run.take (length + 1)) with
    | some symbol => some symbol
    | none => backOff? run length

/-- The symbol that begins a run of punctuation. -/
def leading? (run : Bytes) : Option Symbol :=
  backOff? run run.length

theorem bytes_isPrefix_of_backOff? {run : Bytes} {length : Nat} {symbol : Symbol}
    (found : backOff? run length = some symbol) : symbol.bytes <+: run := by
  induction length with
  | zero => simp [backOff?] at found
  | succ length ih =>
      rw [backOff?] at found
      split at found
      · rename_i shorter shorterFound
        cases found
        rw [← ofBytes?_eq_some_iff.mp shorterFound]
        exact List.take_prefix _ _
      · exact ih found

theorem bytes_ne_nil (symbol : Symbol) : symbol.bytes ≠ [] := by
  cases symbol <;> decide +kernel

end Symbol

end LayoutLexer
