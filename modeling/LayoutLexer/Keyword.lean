import LayoutLexer.Bytes

/-!
# Keywords

The reserved words of the language, with their spellings and printed names.
-/

namespace LayoutLexer

/-- The reserved words. -/
inductive Keyword where
  | pass
  | breakLoop
  | continueLoop
  | returnValue
  | delete
  | typeAlias
  | assertion
  | define
  | struct
  | enumeration
  | ifBranch
  | elseIfBranch
  | elseBranch
  | whileLoop
  | forLoop
  | trueValue
  | falseValue
  deriving DecidableEq, Repr

namespace Keyword

def all : List Keyword :=
  [pass, breakLoop, continueLoop, returnValue, delete, typeAlias, assertion,
    define, struct, enumeration, ifBranch, elseIfBranch, elseBranch, whileLoop,
    forLoop, trueValue, falseValue]

theorem mem_all (keyword : Keyword) : keyword ∈ all := by
  cases keyword <;> decide

/-- How a keyword is written in a source. -/
def spelling : Keyword → String
  | pass => "pass"
  | breakLoop => "break"
  | continueLoop => "continue"
  | returnValue => "return"
  | delete => "del"
  | typeAlias => "type"
  | assertion => "assert"
  | define => "def"
  | struct => "struct"
  | enumeration => "enum"
  | ifBranch => "if"
  | elseIfBranch => "elif"
  | elseBranch => "else"
  | whileLoop => "while"
  | forLoop => "for"
  | trueValue => "True"
  | falseValue => "False"

def name : Keyword → String
  | pass => "PASS"
  | breakLoop => "BREAK"
  | continueLoop => "CONTINUE"
  | returnValue => "RETURN"
  | delete => "DEL"
  | typeAlias => "TYPE"
  | assertion => "ASSERT"
  | define => "DEF"
  | struct => "STRUCT"
  | enumeration => "ENUM"
  | ifBranch => "IF"
  | elseIfBranch => "ELIF"
  | elseBranch => "ELSE"
  | whileLoop => "WHILE"
  | forLoop => "FOR"
  | trueValue => "TRUE"
  | falseValue => "FALSE"

def bytes (keyword : Keyword) : Bytes :=
  utf8 keyword.spelling

def table : List (Bytes × Keyword) :=
  all.map fun keyword => (keyword.bytes, keyword)

def ofBytes? (text : Bytes) : Option Keyword :=
  table.lookup text

/-- Looking up a spelling inverts writing it. -/
theorem ofBytes?_eq_some_iff {text : Bytes} {keyword : Keyword} :
    ofBytes? text = some keyword ↔ text = keyword.bytes := by
  constructor
  · intro found
    obtain ⟨before, after, split, -⟩ := List.lookup_eq_some_iff.mp found
    have entry : (text, keyword) ∈ table := by simp [split]
    obtain ⟨listed, -, same⟩ := List.mem_map.mp entry
    cases same
    rfl
  · rintro rfl
    cases keyword <;> decide +kernel

end Keyword

end LayoutLexer
