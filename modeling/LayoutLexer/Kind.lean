import LayoutLexer.Symbol
import LayoutLexer.Keyword

/-!
# Kinds of tokens

The kinds into which the lexer sorts what it finds.  Kinds whose spelling is not
fixed carry their text with each token; three kinds mark layout and stand for no
bytes of the source.
-/

namespace LayoutLexer

inductive Kind where
  | symbol (sign : Symbol)
  | keyword (word : Keyword)
  | identifier
  | integer
  | float
  | string
  | newline
  | indent
  | dedent
  | unknown
  | endMarker
  deriving DecidableEq, Repr

namespace Kind

def name : Kind → String
  | symbol sign => sign.name
  | keyword word => word.name
  | identifier => "IDENT"
  | integer => "INT"
  | float => "FLOAT"
  | string => "STRING"
  | newline => "NEWLINE"
  | indent => "INDENT"
  | dedent => "DEDENT"
  | unknown => "UNKNOWN"
  | endMarker => "ENDMARKER"

/-- Kinds whose spelling the kind does not settle, so that their tokens carry
their text. -/
def carriesText : Kind → Bool
  | identifier | integer | float | string | unknown => true
  | symbol _ | keyword _ | newline | indent | dedent | endMarker => false

/-- Kinds that mark layout and stand for no bytes of the source. -/
def isSynthetic : Kind → Bool
  | indent | dedent | endMarker => true
  | symbol _ | keyword _ | identifier | integer | float | string | newline | unknown => false

end Kind

end LayoutLexer
