import LayoutLexer.Dump
import LayoutLexer.Proofs.CharacterBoundary
import LayoutLexer.Proofs.TokenText
import Mathlib.Data.List.Nodup

/-!
# Reading a dump back

Texts stand in a dump as they are, without any escapes, so a text may hold what
looks like further printed tokens.  Still two sources with the same dump have the
same tokens.  Kinds and most texts are read forwards, each of them up to the
first space or the closing quote.  The text of a string that is not closed is read
backwards from the end of the line, where the positions of its token and perhaps
a newline token stand.
-/

namespace LayoutLexer

variable {first second before after : Bytes}

/-! ## Dividing at a byte -/

/-- What is in front of the first separator and what is behind it. -/
theorem append_cons_inj_of_not_mem_left {separator : UInt8} (notFirst : separator ∉ first)
    (notSecond : separator ∉ second)
    (same : first ++ separator :: before = second ++ separator :: after) :
    first = second ∧ before = after := by
  induction first generalizing second with
  | nil =>
      cases second with
      | nil => exact ⟨rfl, (List.cons.inj same).2⟩
      | cons byte second =>
          rw [(List.cons.inj same).1] at notSecond
          exact absurd List.mem_cons_self notSecond
  | cons byte first ih =>
      cases second with
      | nil =>
          rw [(List.cons.inj same).1] at notFirst
          exact absurd List.mem_cons_self notFirst
      | cons other second =>
          obtain ⟨rfl, behind⟩ := List.cons.inj same
          obtain ⟨rfl, afterEq⟩ := ih (fun member => notFirst (List.mem_cons_of_mem _ member))
            (fun member => notSecond (List.mem_cons_of_mem _ member)) behind
          exact ⟨rfl, afterEq⟩

/-- What is in front of the last separator and what is behind it. -/
theorem append_cons_inj_of_not_mem_right {separator : UInt8} (notBefore : separator ∉ before)
    (notAfter : separator ∉ after)
    (same : first ++ separator :: before = second ++ separator :: after) :
    first = second ∧ before = after := by
  have reversed := congrArg List.reverse same
  simp only [List.reverse_append, List.reverse_cons, List.append_assoc,
    List.singleton_append] at reversed
  obtain ⟨beforeEq, firstEq⟩ := append_cons_inj_of_not_mem_left
    (by rwa [List.mem_reverse]) (by rwa [List.mem_reverse]) reversed
  exact ⟨List.reverse_inj.mp firstEq, List.reverse_inj.mp beforeEq⟩

/-! ## Numbers -/

theorem decimal_injective {number other : Nat} (same : decimal number = decimal other) :
    number = other := by
  have digits : Nat.toDigits 10 number = Nat.toDigits 10 other := encoded_injective same
  have values := congrArg (fun digits => Nat.ofDigitChars 10 digits 0) digits
  simpa only [Nat.ofDigitChars_ten_toDigits] using values

/-! ## Names of kinds -/

def Kind.all : List Kind :=
  Symbol.all.map .symbol ++ Keyword.all.map .keyword ++
    [.identifier, .integer, .float, .string, .newline, .indent, .dedent, .unknown, .endMarker]

theorem Kind.mem_all (kind : Kind) : kind ∈ all := by
  cases kind with
  | symbol sign => simp [all, Symbol.mem_all]
  | keyword word => simp [all, Keyword.mem_all]
  | _ => decide

def Kind.nameBytes (kind : Kind) : Bytes :=
  utf8 kind.name

/-- The names of kinds are words of their own. -/
theorem Kind.nameBytes_all : (all.map nameBytes).Nodup ∧
    ∀ name ∈ all.map nameBytes, space ∉ name := by
  decide +kernel

theorem Kind.nameBytes_injective {kind other : Kind} (same : kind.nameBytes = other.nameBytes) :
    kind = other :=
  List.inj_on_of_nodup_map nameBytes_all.1 kind.mem_all other.mem_all same

theorem Kind.space_not_mem_nameBytes (kind : Kind) : space ∉ kind.nameBytes :=
  nameBytes_all.2 _ (List.mem_map_of_mem kind.mem_all)

/-! ## The parts of a printed token -/

/-- What a printed token has of its text. -/
def printedText : Option Bytes → Bytes
  | some text => space :: text
  | none => []

/-- The positions of a token as they are printed. -/
def Token.printedPositions (token : Token) : Bytes :=
  utf8 " LINE " ++ (decimal (token.line + 1) ++ space :: (utf8 "COL " ++
    (decimal (token.startColumn + 1) ++ space :: (utf8 "TO " ++
      (decimal (token.endColumn + 1) ++ utf8 ")")))))

theorem Token.dumped_eq (token : Token) :
    token.dumped = utf8 "(" ++ (token.kind.nameBytes ++ (printedText token.text ++
      (token.printedPositions ++ [space]))) := by
  have column : utf8 " COL " = space :: utf8 "COL " := rfl
  have stop : utf8 " TO " = space :: utf8 "TO " := rfl
  simp only [dumped, render, Kind.nameBytes, printedPositions, column, stop, List.append_assoc,
    List.cons_append]
  rfl

/-- Two tokens with the same positions. -/
def Token.SamePlace (token other : Token) : Prop :=
  token.line = other.line ∧ token.startColumn = other.startColumn ∧
    token.endColumn = other.endColumn

theorem Token.eq_of_samePlace {token other : Token} (sameKind : token.kind = other.kind)
    (sameText : token.text = other.text) (samePlace : token.SamePlace other) : token = other := by
  cases token
  cases other
  obtain ⟨sameLine, sameStart, sameEnd⟩ := samePlace
  simp_all

theorem decimal_succ_injective {number other : Nat}
    (same : decimal (number + 1) = decimal (other + 1)) : number = other :=
  Nat.succ.inj (decimal_injective same)

/-- Positions are read forwards, each number up to what is behind it. -/
theorem Token.printedPositions_append_inj {token other : Token}
    (same : token.printedPositions ++ before = other.printedPositions ++ after) :
    token.SamePlace other ∧ before = after := by
  have noSpace := not_mem_decimal space (by decide)
  have noBracket := not_mem_decimal 41 (by decide)
  simp only [printedPositions, List.append_assoc, List.cons_append,
    List.append_cancel_left_eq] at same
  obtain ⟨line, same⟩ := append_cons_inj_of_not_mem_left (noSpace _) (noSpace _) same
  rw [List.append_cancel_left_eq] at same
  obtain ⟨start, same⟩ := append_cons_inj_of_not_mem_left (noSpace _) (noSpace _) same
  rw [List.append_cancel_left_eq] at same
  obtain ⟨stop, same⟩ := append_cons_inj_of_not_mem_left (noBracket _) (noBracket _) same
  exact ⟨⟨decimal_succ_injective line, decimal_succ_injective start,
    decimal_succ_injective stop⟩, same⟩

/-- Positions are read backwards, each number back to what is in front of it. -/
theorem Token.append_printedPositions_inj {token other : Token}
    (same : before ++ token.printedPositions = after ++ other.printedPositions) :
    token.SamePlace other ∧ before = after := by
  have noSpace := not_mem_decimal space (by decide)
  have regroup (front : Bytes) (token : Token) : front ++ token.printedPositions =
      (front ++ space :: utf8 "LINE" ++ space :: (decimal (token.line + 1)) ++
        space :: utf8 "COL" ++ space :: (decimal (token.startColumn + 1)) ++ space :: utf8 "TO" ++
          space :: (decimal (token.endColumn + 1))) ++ utf8 ")" := by
    simp [printedPositions]
    rfl
  rw [regroup, regroup, List.append_cancel_right_eq] at same
  obtain ⟨same, stop⟩ := append_cons_inj_of_not_mem_right (noSpace _) (noSpace _) same
  rw [List.append_cancel_right_eq] at same
  obtain ⟨same, start⟩ := append_cons_inj_of_not_mem_right (noSpace _) (noSpace _) same
  rw [List.append_cancel_right_eq] at same
  obtain ⟨same, line⟩ := append_cons_inj_of_not_mem_right (noSpace _) (noSpace _) same
  rw [List.append_cancel_right_eq] at same
  exact ⟨⟨decimal_succ_injective line, decimal_succ_injective start,
    decimal_succ_injective stop⟩, same⟩

theorem Token.lineFeed_not_mem_printedPositions (token : Token) :
    lineFeed ∉ token.printedPositions := by
  have noBreak := not_mem_decimal lineFeed (by decide)
  have line : lineFeed ∉ utf8 " LINE " := by decide
  have column : lineFeed ∉ utf8 "COL " := by decide
  have stop : lineFeed ∉ utf8 "TO " := by decide
  have bracket : lineFeed ∉ utf8 ")" := by decide
  have notSpace : lineFeed ≠ space := by decide
  simp only [printedPositions, List.mem_append, List.mem_cons, not_or]
  exact ⟨line, noBreak _, notSpace, column, noBreak _, notSpace, stop, noBreak _, bracket⟩

/-! ## One token after the other -/

/-- What is behind a printed token in a dump. -/
def dumpBehind (token : Token) (tokens : List Token) : Bytes :=
  space :: ((if token.kind = .newline then [lineFeed] else []) ++ dump tokens)

theorem dump_cons (token : Token) (tokens : List Token) :
    dump (token :: tokens) = utf8 "(" ++ (token.kind.nameBytes ++ (printedText token.text ++
      (token.printedPositions ++ dumpBehind token tokens))) := by
  rw [dump, List.flatMap_cons, Token.dumped_eq]
  simp only [dumpBehind, dump, List.append_assoc, List.cons_append, List.nil_append]

theorem dump_cons_ne_nil (token : Token) (tokens : List Token) : dump (token :: tokens) ≠ [] := by
  rw [dump_cons]
  exact List.cons_ne_nil _ _

/-- The kind of a token is read up to the first space. -/
theorem kind_eq_of_dump_eq {token other : Token} {tokens others : List Token}
    (same : dump (token :: tokens) = dump (other :: others)) :
    token.kind = other.kind ∧
      printedText token.text ++ (token.printedPositions ++ dumpBehind token tokens) =
        printedText other.text ++ (other.printedPositions ++ dumpBehind other others) := by
  have beginsWithSpace (token : Token) (behind : Bytes) :
      ∃ rest, printedText token.text ++ (token.printedPositions ++ behind) = space :: rest := by
    cases token.text <;> exact ⟨_, rfl⟩
  obtain ⟨rest, isRest⟩ := beginsWithSpace token (dumpBehind token tokens)
  obtain ⟨otherRest, isOtherRest⟩ := beginsWithSpace other (dumpBehind other others)
  rw [dump_cons, dump_cons, List.append_cancel_left_eq, isRest, isOtherRest] at same
  obtain ⟨sameName, sameRest⟩ := append_cons_inj_of_not_mem_left
    token.kind.space_not_mem_nameBytes other.kind.space_not_mem_nameBytes same
  exact ⟨Kind.nameBytes_injective sameName, by rw [isRest, isOtherRest, sameRest]⟩

/-- A text that shows its end is read up to there. -/
theorem Delimited.text_eq {kind : Kind} {text otherText : Option Bytes}
    (delimited : Delimited kind text) (otherDelimited : Delimited kind otherText)
    (same : printedText text ++ space :: before = printedText otherText ++ space :: after) :
    text = otherText := by
  cases delimited with
  | bare noText =>
      cases otherDelimited with
      | bare _ => rfl
      | plain carries _ _ _ => simp [noText] at carries
      | quoted _ => cases noText
  | plain carries notString notQuote noSpace =>
      cases otherDelimited with
      | bare noText => simp [noText] at carries
      | plain _ _ _ otherNoSpace =>
          exact congrArg some
            (append_cons_inj_of_not_mem_left noSpace otherNoSpace (List.cons.inj same).2).1
      | quoted _ => exact absurd rfl notString
  | quoted notInside =>
      cases otherDelimited with
      | bare noText => cases noText
      | plain _ notString _ _ => exact absurd rfl notString
      | quoted otherNotInside =>
          simp only [printedText, List.cons_append, List.append_assoc, List.cons.injEq,
            true_and, List.nil_append] at same
          obtain ⟨rfl, same⟩ := same
          rw [(append_cons_inj_of_not_mem_left notInside otherNotInside same).1]

/-- No text that shows its end begins as an open string does. -/
theorem Delimited.not_openText {kind : Kind} {text otherText : Option Bytes}
    (delimited : Delimited kind text) (isOpen : OpenText kind otherText) :
    printedText text ++ space :: before ≠ printedText otherText ++ space :: after := by
  intro same
  cases isOpen with
  | opened isQuote _ =>
      cases delimited with
      | bare noText => cases noText
      | plain _ _ notQuote _ =>
          simp only [printedText, List.cons_append, List.cons.injEq, true_and] at same
          exact notQuote (same.1 ▸ isQuote)

/-- Nothing, or a newline token with further tokens behind it. -/
inductive EndsLine : List Token → Prop
  | nil : EndsLine []
  | cons {newline : Token} {tokens : List Token} : newline.kind = .newline →
      newline.text = none → EndsLine (newline :: tokens)

theorem endsLine_of_head? {tokens : List Token}
    (ends : ∀ next, tokens.head? = some next → next.kind = .newline ∧ next.text = none) :
    EndsLine tokens := by
  cases tokens with
  | nil => exact .nil
  | cons newline tokens =>
      obtain ⟨isNewline, noText⟩ := ends newline rfl
      exact .cons isNewline noText

/-- What the newline token at the end of a line is printed as, up to its positions. -/
def newlineOpening : Bytes :=
  utf8 "(" ++ Kind.newline.nameBytes

theorem dump_newline_cons {newline : Token} (isNewline : newline.kind = .newline)
    (noText : newline.text = none) (tokens : List Token) :
    dump (newline :: tokens) =
      newlineOpening ++ newline.printedPositions ++ [space] ++ lineFeed :: dump tokens := by
  rw [dump_cons, dumpBehind, if_pos isNewline, isNewline, noText]
  simp [newlineOpening, printedText]

/-- The part of a line up to the end of a printed token is read backwards. -/
theorem text_eq_of_printed_eq {token other : Token} {text otherText : Bytes}
    (same : text ++ (token.printedPositions ++ [space]) =
      otherText ++ (other.printedPositions ++ [space])) :
    text = otherText ∧ token.SamePlace other := by
  rw [← List.append_assoc, ← List.append_assoc, List.append_cancel_right_eq] at same
  obtain ⟨samePlace, sameText⟩ := Token.append_printedPositions_inj same
  exact ⟨sameText, samePlace⟩

theorem lineFeed_not_mem_printed {text : Bytes} (oneLine : lineFeed ∉ text) (token : Token) :
    lineFeed ∉ text ++ (token.printedPositions ++ [space]) := by
  simp only [List.mem_append, List.mem_singleton, not_or]
  exact ⟨oneLine, token.lineFeed_not_mem_printedPositions, by decide⟩

/-- The text of an open string is what is left when the end of its line is read
backwards. -/
theorem openText_eq {token other : Token} {tokens others : List Token} {text otherText : Bytes}
    (oneLine : lineFeed ∉ text) (otherOneLine : lineFeed ∉ otherText) (ends : EndsLine tokens)
    (otherEnds : EndsLine others)
    (same : text ++ (token.printedPositions ++ space :: dump tokens) =
      otherText ++ (other.printedPositions ++ space :: dump others)) :
    text = otherText ∧ token.SamePlace other ∧ dump tokens = dump others := by
  have printed := lineFeed_not_mem_printed oneLine token
  have otherPrinted := lineFeed_not_mem_printed otherOneLine other
  have opening : lineFeed ∉ newlineOpening := by decide
  cases ends with
  | nil =>
      cases otherEnds with
      | nil =>
          obtain ⟨sameText, samePlace⟩ := text_eq_of_printed_eq same
          exact ⟨sameText, samePlace, rfl⟩
      | cons isNewline noText =>
          -- Only one of the lines is ended.
          rw [dump_newline_cons isNewline noText] at same
          change _ ++ (_ ++ [space]) = _ at same
          rw [same] at printed
          simp at printed
  | @cons newline tokens isNewline noText =>
      rw [dump_newline_cons isNewline noText] at same
      cases otherEnds with
      | nil =>
          change _ = _ ++ (_ ++ [space]) at same
          rw [← same] at otherPrinted
          simp at otherPrinted
      | @cons otherNewline others isOtherNewline noOtherText =>
          rw [dump_newline_cons isOtherNewline noOtherText] at same
          have regroup (text : Bytes) (token newline : Token) (behind : Bytes) :
              text ++ (token.printedPositions ++ space :: (newlineOpening ++
                newline.printedPositions ++ [space] ++ lineFeed :: behind)) =
              ((text ++ (token.printedPositions ++ [space])) ++ newlineOpening) ++
                (newline.printedPositions ++ [space]) ++ lineFeed :: behind := by
            simp
          rw [regroup, regroup] at same
          have noBreak {line : Bytes} (oneLine : lineFeed ∉ line) (newline : Token) :
              lineFeed ∉ line ++ newlineOpening ++ (newline.printedPositions ++ [space]) :=
            lineFeed_not_mem_printed
              (by rw [List.mem_append, not_or]; exact ⟨oneLine, opening⟩) newline
          obtain ⟨sameLine, sameBehind⟩ := append_cons_inj_of_not_mem_left
            (noBreak printed newline) (noBreak otherPrinted otherNewline) same
          obtain ⟨sameFront, sameNewline⟩ := text_eq_of_printed_eq sameLine
          rw [List.append_cancel_right_eq] at sameFront
          obtain ⟨sameText, samePlace⟩ := text_eq_of_printed_eq sameFront
          have newlineEq : newline = otherNewline :=
            Token.eq_of_samePlace (isNewline.trans isOtherNewline.symm)
              (noText.trans noOtherText.symm) sameNewline
          refine ⟨sameText, samePlace, ?_⟩
          rw [dump_newline_cons isNewline noText, dump_newline_cons isOtherNewline noOtherText,
            newlineEq, sameBehind]

/-- Tokens that a reader can tell apart are read back from their dump. -/
theorem Readable.eq_of_dump_eq {tokens others : List Token} (readable : Readable tokens)
    (otherReadable : Readable others) (same : dump tokens = dump others) : tokens = others := by
  induction readable generalizing others with
  | nil =>
      cases others with
      | nil => rfl
      | cons other others => exact absurd same.symm (dump_cons_ne_nil other others)
  | @delimited token tokens isDelimited _ ih =>
      cases otherReadable with
      | nil => exact absurd same (dump_cons_ne_nil token tokens)
      | @delimited other others isOtherDelimited readableOthers =>
          obtain ⟨sameKind, sameRest⟩ := kind_eq_of_dump_eq same
          have sameText := isDelimited.text_eq (sameKind ▸ isOtherDelimited) sameRest
          rw [sameText, List.append_cancel_left_eq] at sameRest
          obtain ⟨samePlace, sameBehind⟩ := Token.printedPositions_append_inj sameRest
          rw [dumpBehind, dumpBehind, sameKind, List.cons.injEq,
            List.append_cancel_left_eq] at sameBehind
          rw [Token.eq_of_samePlace sameKind sameText samePlace, ih readableOthers sameBehind.2]
      | @opened other others isOpen _ _ =>
          obtain ⟨sameKind, sameRest⟩ := kind_eq_of_dump_eq same
          exact absurd sameRest (isDelimited.not_openText (sameKind ▸ isOpen))
  | @opened token tokens isOpen ends _ ih =>
      cases otherReadable with
      | nil => exact absurd same (dump_cons_ne_nil token tokens)
      | @delimited other others isDelimited _ =>
          obtain ⟨sameKind, sameRest⟩ := kind_eq_of_dump_eq same
          exact absurd sameRest.symm (isDelimited.not_openText (sameKind ▸ isOpen))
      | @opened other others isOtherOpen otherEnds readableOthers =>
          obtain ⟨sameKind, sameRest⟩ := kind_eq_of_dump_eq same
          obtain ⟨isUnknown, text, isText, oneLine⟩ := isOpen.exists_text
          obtain ⟨isOtherUnknown, otherText, isOtherText, otherOneLine⟩ := isOtherOpen.exists_text
          rw [isText, isOtherText, dumpBehind, dumpBehind, isUnknown, isOtherUnknown] at sameRest
          obtain ⟨sameText, samePlace, sameDump⟩ := openText_eq oneLine otherOneLine
            (endsLine_of_head? ends) (endsLine_of_head? otherEnds) (List.cons.inj sameRest).2
          have tokenEq : token = other := Token.eq_of_samePlace sameKind
            (by rw [isText, isOtherText, sameText]) samePlace
          rw [tokenEq, ih readableOthers sameDump]

/-- Two sources have the same dump only if they have the same tokens. -/
theorem dump_scan_eq_iff (first second : Bytes) :
    dump (scan first) = dump (scan second) ↔ scan first = scan second := by
  constructor
  · intro same
    exact (readable_tokensFrom .start first).eq_of_dump_eq (readable_tokensFrom .start second) same
  · intro same
    rw [same]

end LayoutLexer
