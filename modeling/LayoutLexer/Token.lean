import LayoutLexer.Kind

/-!
# Tokens

A token is a kind with the place where it stands and, for some kinds, its text.
Lines and columns count from zero, columns count bytes, and the range of columns
is half open.  A token is printed in parentheses with positions that count from
one.

Positions are kept in 64-bit words, so the last word has no printed form.  The
checked functions here fail exactly where a text and a kind do not fit together
or a position has no printed form; the lexer's own tokens never fail.
-/

namespace LayoutLexer

/-- A classified piece of the source, or a mark of layout. -/
structure Token where
  kind : Kind
  text : Option Bytes
  line : Nat
  startColumn : Nat
  endColumn : Nat
  deriving DecidableEq, Repr

/-- Ways in which a token can be malformed. -/
inductive TokenFault where
  /-- A text where the kind carries none, or none where it carries one. -/
  | textMismatch (kind : Kind)
  /-- A position without a successor among the 64-bit words. -/
  | positionOverflow
  deriving DecidableEq, Repr

/-- The wording of a fault.  Whether a text was present is the opposite of what
the kind asks for. -/
def TokenFault.message : TokenFault → String
  | textMismatch kind =>
    "assertion `left == right` failed: text mismatch for " ++ kind.name ++
      "\n  left: " ++ (if kind.carriesText then "true" else "false") ++
      "\n right: " ++ (if kind.carriesText then "false" else "true")
  | positionOverflow => "attempt to add with overflow"

/-- A position that can be printed: its successor is a 64-bit word too. -/
def Printable (position : Nat) : Prop :=
  position + 1 < UInt64.size

instance (position : Nat) : Decidable (Printable position) :=
  inferInstanceAs (Decidable (position + 1 < UInt64.size))

namespace Token

def make (kind : Kind) (text : Option Bytes) (line startColumn endColumn : Nat) :
    Except TokenFault Token :=
  if kind.carriesText = text.isSome then
    .ok { kind, text, line, startColumn, endColumn }
  else
    .error (.textMismatch kind)

def render (token : Token) : Bytes :=
  utf8 "(" ++ utf8 token.kind.name ++
    (match token.text with
      | some text => space :: text
      | none => []) ++
    utf8 " LINE " ++ decimal (token.line + 1) ++
    utf8 " COL " ++ decimal (token.startColumn + 1) ++
    utf8 " TO " ++ decimal (token.endColumn + 1) ++ utf8 ")"

def IsPrintable (token : Token) : Prop :=
  Printable token.line ∧ Printable token.startColumn ∧ Printable token.endColumn

instance (token : Token) : Decidable token.IsPrintable :=
  inferInstanceAs (Decidable (_ ∧ _ ∧ _))

/-- The printed form of a token, where there is one. -/
def checkedRender (token : Token) : Except TokenFault Bytes :=
  if token.IsPrintable then .ok token.render else .error .positionOverflow

end Token

end LayoutLexer
