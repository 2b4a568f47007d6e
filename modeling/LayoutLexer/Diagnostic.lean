import LayoutLexer.Scan

/-!
# Diagnostics for unknown tokens

A diagnostic names an unknown token and the file, prints the line of the source
that holds it, and puts carets below it.  A gutter with the number of the line
runs along the left.
-/

namespace LayoutLexer

/-- The lines of a source, without the line feeds between them. -/
def sourceLines (source : Bytes) : List Bytes :=
  source.splitOn lineFeed

/-- A line as it is shown: a carriage return at its end is left out. -/
def shownLine (line : Bytes) : Bytes :=
  if line.getLast? = some carriageReturn then line.dropLast else line

/-- The line with the given number, as it is shown. -/
def getLine (source : Bytes) (line : Nat) : Option Bytes :=
  (sourceLines source)[line]?.map shownLine

/-- The diagnostic for a token.  The bars of the gutter stand in one column, and
there is at least one caret. -/
def displayUnknown (token : Token) (source file : Bytes) : Bytes :=
  let number := decimal (token.line + 1)
  let bar := List.replicate (number.length + 1) space ++ utf8 "|"
  let carets := max 1 (token.endColumn - token.startColumn)
  utf8 "Warning: unknown token `" ++ token.text.getD [] ++ utf8 "`\n" ++
    utf8 "-> " ++ file ++ utf8 "\n" ++
    bar ++ utf8 "\n" ++
    number ++ utf8 " | " ++ (getLine source token.line).getD [] ++ utf8 "\n" ++
    bar ++ utf8 " " ++ List.replicate token.startColumn space ++
    (List.replicate carets (utf8 "^")).flatten ++ utf8 "\n"

/-- The diagnostic for a token whose line number can be printed. -/
def checkedDisplayUnknown (token : Token) (source file : Bytes) :
    Except TokenFault Bytes :=
  if Printable token.line then .ok (displayUnknown token source file)
  else .error .positionOverflow

/-- The diagnostics for the unknown tokens among those of a source. -/
def diagnose (source file : Bytes) : List Bytes :=
  ((scan source).filter fun token => token.kind = .unknown).map fun token =>
    displayUnknown token source file

end LayoutLexer
