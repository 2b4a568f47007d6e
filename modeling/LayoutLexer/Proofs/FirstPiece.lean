import LayoutLexer.Piece
import LayoutLexer.Proofs.ByteRanges

/-!
# What the first piece of a source is

The relation `Piece.Leads` says case by case how a source may begin, and exactly
the first piece of a source leads it.  All that the proofs need to know about a
first piece is read off this relation: it ends at the line feed at the latest,
it looks no further either, and the bytes of a lexeme are those that its token
stands for.
-/

namespace LayoutLexer

/-- A run that goes no further than a byte is not changed by what is behind. -/
theorem takeWhile_append_stop {accepts : UInt8 → Bool} {stop : UInt8}
    (stops : accepts stop = false) (before after : Bytes) :
    (before ++ stop :: after).takeWhile accepts = before.takeWhile accepts := by
  induction before with
  | nil => simp [stops]
  | cons byte before ih =>
      rw [List.cons_append, List.takeWhile_cons, List.takeWhile_cons, ih]

theorem takeWhile_run_append {accepts : UInt8 → Bool} {run after : Bytes}
    (all : ∀ byte ∈ run, accepts byte = true)
    (stops : ∀ next, after.head? = some next → accepts next = false) :
    (run ++ after).takeWhile accepts = run := by
  rw [List.takeWhile_append_of_pos all]
  cases after with
  | nil => simp
  | cons next after => simp [stops next rfl]

theorem dropWhile_run_append {accepts : UInt8 → Bool} {run after : Bytes}
    (all : ∀ byte ∈ run, accepts byte = true)
    (stops : ∀ next, after.head? = some next → accepts next = false) :
    (run ++ after).dropWhile accepts = after := by
  rw [List.dropWhile_append_of_pos all]
  cases after with
  | nil => rfl
  | cons next after => simp [stops next rfl]

theorem accepts_of_mem_takeWhile {accepts : UInt8 → Bool} {bytes : Bytes} {byte : UInt8}
    (member : byte ∈ bytes.takeWhile accepts) : accepts byte = true :=
  List.all_eq_true.mp List.all_takeWhile byte member

theorem not_mem_takeWhile {accepts : UInt8 → Bool} {stop : UInt8}
    (stops : accepts stop = false) (bytes : Bytes) : stop ∉ bytes.takeWhile accepts := by
  intro member
  rw [accepts_of_mem_takeWhile member] at stops
  exact Bool.noConfusion stops

theorem head?_dropWhile {accepts : UInt8 → Bool} {bytes : Bytes} {next : UInt8}
    (isNext : (bytes.dropWhile accepts).head? = some next) : accepts next = false := by
  have stopped := List.head?_dropWhile_not accepts bytes
  rw [isNext] at stopped
  simpa using stopped

/-- Behind a byte and the run that goes on from it the rest goes on without the run. -/
theorem eq_dropWhile_of_run {accepts : UInt8 → Bool} {byte : UInt8} {rest behind : Bytes}
    (split : byte :: rest = byte :: rest.takeWhile accepts ++ behind) :
    behind = rest.dropWhile accepts := by
  rw [List.cons_append, List.cons.injEq] at split
  apply List.append_cancel_left
  rw [← split.2, List.takeWhile_append_dropWhile]

namespace Piece

def isDropped : Piece → Bool
  | dropped _ => true
  | lexeme .. | lineBreak _ | comment _ | blank _ => false

def numberKind (run : Bytes) : Kind :=
  if run.all fun byte => isDigit byte || byte == period then
    match run.count period with
    | 0 => .integer
    | 1 => .float
    | _ => .unknown
  else .unknown

theorem numberKind_eq (run : Bytes) :
    numberKind run = .integer ∨ numberKind run = .float ∨ numberKind run = .unknown := by
  unfold numberKind
  (repeat' split) <;> simp

theorem number_eq (run : Bytes) : number run = lexeme (numberKind run) (some run) run :=
  rfl

/-- How a source may begin.  A string is closed by the first of its quotes on the
line; an open string goes on to the line feed or to the end. -/
inductive Leads (byte : UInt8) (rest : Bytes) : Piece → Prop
  | lineBreak : byte = lineFeed → Leads byte rest (.lineBreak (rest.takeWhile isMargin))
  | blank : ByteClass.of byte = .blank → Leads byte rest (.blank byte)
  | number (run : Bytes) : ByteClass.of byte = .digit → run = rest.takeWhile isNumeric →
      Leads byte rest
        (.lexeme (numberKind (byte :: run)) (some (byte :: run)) (byte :: run))
  | keyword (word : Keyword) : ByteClass.of byte = .letter →
      word.bytes = byte :: rest.takeWhile isWord →
      Leads byte rest (.lexeme (.keyword word) none word.bytes)
  | identifier (run : Bytes) : ByteClass.of byte = .letter → run = rest.takeWhile isWord →
      Keyword.ofBytes? (byte :: run) = none →
      Leads byte rest (.lexeme .identifier (some (byte :: run)) (byte :: run))
  | string (inside after : Bytes) : ByteClass.of byte = .quote → byte ∉ inside →
      lineFeed ∉ inside → rest = inside ++ byte :: after →
      Leads byte rest
        (.lexeme .string (some (byte :: (inside ++ [byte]))) (byte :: (inside ++ [byte])))
  | openString (inside after : Bytes) : ByteClass.of byte = .quote → byte ∉ inside →
      lineFeed ∉ inside → rest = inside ++ after →
      (∀ next, after.head? = some next → next = lineFeed) →
      Leads byte rest (.lexeme .unknown (some (byte :: inside)) (byte :: inside))
  | comment (run : Bytes) : ByteClass.of byte = .hash →
      run = (rest.takeWhile fun other => other != lineFeed) →
      Leads byte rest (.comment (byte :: run))
  | symbol (sign : Symbol) : ByteClass.of byte = .punctuation →
      Symbol.leading? (byte :: rest.takeWhile isPunctuation) = some sign →
      Leads byte rest (.lexeme (.symbol sign) none sign.bytes)
  | sign : ByteClass.of byte = .punctuation →
      Symbol.leading? (byte :: rest.takeWhile isPunctuation) = none →
      Leads byte rest (.lexeme .unknown (some [byte]) [byte])
  | dropped : ByteClass.of byte = .foreign → Leads byte rest (.dropped byte)

/-- The bytes that a string goes on with until it is closed or its line ends. -/
def isInside (quote byte : UInt8) : Bool :=
  byte != quote && byte != lineFeed

theorem isInside_of_mem {quote : UInt8} {inside : Bytes} (notQuote : quote ∉ inside)
    (oneLine : lineFeed ∉ inside) : ∀ byte ∈ inside, isInside quote byte = true := by
  intro byte member
  have notEnd : byte ≠ quote := fun same => notQuote (same ▸ member)
  have notBreak : byte ≠ lineFeed := fun same => oneLine (same ▸ member)
  simp [isInside, notEnd, notBreak]

theorem string_eq_ite (quote : UInt8) (rest : Bytes) :
    string quote rest =
      let opened := quote :: rest.takeWhile (isInside quote)
      if (rest.dropWhile (isInside quote)).head? = some quote then
        lexeme .string (some (opened ++ [quote])) (opened ++ [quote])
      else lexeme .unknown (some opened) opened :=
  rfl

theorem string_eq {quote : UInt8} {inside after : Bytes} (notQuote : quote ∉ inside)
    (oneLine : lineFeed ∉ inside)
    (stops : ∀ next, after.head? = some next → isInside quote next = false) :
    string quote (inside ++ after) =
      if after.head? = some quote then
        lexeme .string (some (quote :: (inside ++ [quote]))) (quote :: (inside ++ [quote]))
      else lexeme .unknown (some (quote :: inside)) (quote :: inside) := by
  have all := isInside_of_mem notQuote oneLine
  rw [string_eq_ite, takeWhile_run_append all stops, dropWhile_run_append all stops]
  rfl

theorem leads_string {quote : UInt8} (isQuote : ByteClass.of quote = .quote)
    (rest : Bytes) : Leads quote rest (string quote rest) := by
  have split : rest.takeWhile (isInside quote) ++ rest.dropWhile (isInside quote) = rest :=
    List.takeWhile_append_dropWhile
  have notQuote : quote ∉ rest.takeWhile (isInside quote) :=
    not_mem_takeWhile (by simp [isInside]) rest
  have oneLine : lineFeed ∉ rest.takeWhile (isInside quote) :=
    not_mem_takeWhile (by simp [isInside]) rest
  rw [string_eq_ite]
  dsimp only
  split
  · rename_i closed
    obtain ⟨after, behind⟩ := List.head?_eq_some_iff.mp closed
    exact .string _ after isQuote notQuote oneLine (behind ▸ split.symm)
  · rename_i notClosed
    refine .openString _ _ isQuote notQuote oneLine split.symm fun next isNext => ?_
    have notQuoteNext : next ≠ quote := fun same => notClosed (same ▸ isNext)
    simpa [isInside, notQuoteNext] using head?_dropWhile isNext

/-- The first piece of a source leads it. -/
theorem leads_first (byte : UInt8) (rest : Bytes) : Leads byte rest (first byte rest) := by
  unfold first
  split
  case h_1 isClass => exact .lineBreak (eq_lineFeed_of_class isClass)
  case h_2 isClass => exact .blank isClass
  case h_3 isClass => exact .number _ isClass rfl
  case h_4 isClass =>
    unfold word
    split
    · rename_i word found
      have bytes := Keyword.ofBytes?_eq_some_iff.mp found
      rw [bytes]
      exact .keyword word isClass bytes.symm
    · rename_i unknown
      exact .identifier _ isClass rfl unknown
  case h_5 isClass => exact leads_string isClass rest
  case h_6 isClass => exact .comment _ isClass rfl
  case h_7 isClass =>
    unfold operator
    split
    · rename_i sign found
      exact .symbol sign isClass found
    · rename_i none
      exact .sign isClass none
  case h_8 isClass => exact .dropped isClass

/-- Only the first piece of a source leads it. -/
theorem Leads.eq_first {byte : UInt8} {rest : Bytes} {piece : Piece}
    (leads : Leads byte rest piece) : piece = first byte rest := by
  unfold first
  cases leads with
  | lineBreak isBreak => rw [isBreak]; rfl
  | blank isClass => rw [isClass]
  | number run isClass isRun => rw [isClass, isRun]; rfl
  | keyword word isClass isRun =>
      have found := Keyword.ofBytes?_eq_some_iff.mpr isRun.symm
      rw [isClass]
      simp only [Piece.word, found, isRun]
  | identifier run isClass isRun notKeyword =>
      rw [isRun] at notKeyword
      rw [isClass, isRun]
      simp only [Piece.word, notKeyword]
  | string inside after isClass notQuote oneLine split =>
      rw [isClass, split]
      exact ((string_eq notQuote oneLine (by simp [isInside])).trans (if_pos rfl)).symm
  | openString inside after isClass notQuote oneLine split ends =>
      have notBreak : byte ≠ lineFeed := ne_lineFeed_of_class isClass ByteClass.noConfusion
      have notClosed : after.head? ≠ some byte := fun closed => notBreak (ends byte closed)
      have stops : ∀ next, after.head? = some next → isInside byte next = false :=
        fun next isNext => by simp [isInside, ends next isNext]
      rw [isClass, split]
      exact ((string_eq notQuote oneLine stops).trans (if_neg notClosed)).symm
  | comment run isClass isRun => rw [isClass, isRun]
  | symbol sign isClass found =>
      rw [isClass]
      simp only [operator, found]
  | sign isClass notFound =>
      rw [isClass]
      simp only [operator, notFound]
  | dropped isClass => rw [isClass]

theorem leads_iff {byte : UInt8} {rest : Bytes} {piece : Piece} :
    Leads byte rest piece ↔ piece = first byte rest :=
  ⟨Leads.eq_first, fun same => same ▸ leads_first byte rest⟩

variable {byte : UInt8} {rest : Bytes} {piece : Piece}

theorem Leads.bytes_ne_nil (leads : Leads byte rest piece) : piece.bytes ≠ [] := by
  rw [leads.eq_first]
  exact first_bytes_ne_nil byte rest

/-! ## Pieces and line feeds -/

theorem Leads.lineFeed_not_mem (leads : Leads byte rest piece) (notBreak : byte ≠ lineFeed) :
    lineFeed ∉ piece.bytes := by
  have notRun {run : Bytes} (absent : lineFeed ∉ run) : lineFeed ∉ byte :: run := by
    rw [List.mem_cons, not_or]
    exact ⟨notBreak.symm, absent⟩
  cases leads with
  | lineBreak isBreak => exact absurd isBreak notBreak
  | blank isClass => exact notRun List.not_mem_nil
  | number run isClass isRun =>
      exact notRun (isRun ▸ not_mem_takeWhile (by decide) rest)
  | keyword word isClass isRun =>
      rw [Piece.bytes, isRun]
      exact notRun (not_mem_takeWhile (by decide) rest)
  | identifier run isClass isRun notKeyword =>
      exact notRun (isRun ▸ not_mem_takeWhile (by decide) rest)
  | string inside after isClass notQuote oneLine split =>
      refine notRun ?_
      rw [List.mem_append, List.mem_singleton, not_or]
      exact ⟨oneLine, notBreak.symm⟩
  | openString inside after isClass notQuote oneLine split ends => exact notRun oneLine
  | comment run isClass isRun =>
      exact notRun (isRun ▸ not_mem_takeWhile (by decide) rest)
  | symbol sign isClass found =>
      intro member
      exact notRun (not_mem_takeWhile (by decide) rest)
        ((Symbol.bytes_isPrefix_of_backOff? found).subset member)
  | sign isClass notFound => exact notRun List.not_mem_nil
  | dropped isClass => exact notRun List.not_mem_nil

theorem lineFeed_not_mem_first (notBreak : byte ≠ lineFeed) :
    lineFeed ∉ (first byte rest).bytes :=
  (leads_first byte rest).lineFeed_not_mem notBreak

/-- What is behind the next line feed has no influence on what leads a line. -/
theorem Leads.append_lineFeed (leads : Leads byte rest piece) (notBreak : byte ≠ lineFeed)
    (after : Bytes) : Leads byte (rest ++ lineFeed :: after) piece := by
  have sameRun (accepts : UInt8 → Bool) (stops : accepts lineFeed = false) :
      (rest ++ lineFeed :: after).takeWhile accepts = rest.takeWhile accepts :=
    takeWhile_append_stop stops rest after
  cases leads with
  | lineBreak isBreak => exact absurd isBreak notBreak
  | blank isClass => exact .blank isClass
  | number run isClass isRun =>
      exact .number run isClass (by rw [sameRun _ (by decide), isRun])
  | keyword word isClass isRun =>
      exact .keyword word isClass (by rw [sameRun _ (by decide), isRun])
  | identifier run isClass isRun notKeyword =>
      exact .identifier run isClass (by rw [sameRun _ (by decide), isRun]) notKeyword
  | string inside behind isClass notQuote oneLine split =>
      exact .string inside (behind ++ lineFeed :: after) isClass notQuote oneLine
        (by rw [split, List.append_assoc, List.cons_append])
  | openString inside behind isClass notQuote oneLine split ends =>
      refine .openString inside (behind ++ lineFeed :: after) isClass notQuote oneLine
        (by rw [split, List.append_assoc]) ?_
      cases behind with
      | nil => simp
      | cons next behind => exact ends
  | comment run isClass isRun =>
      exact .comment run isClass (by rw [sameRun _ (by decide), isRun])
  | symbol sign isClass found =>
      exact .symbol sign isClass (by rw [sameRun _ (by decide), found])
  | sign isClass notFound =>
      exact .sign isClass (by rw [sameRun _ (by decide), notFound])
  | dropped isClass => exact .dropped isClass

theorem first_append_lineFeed (notBreak : byte ≠ lineFeed) (rest after : Bytes) :
    first byte (rest ++ lineFeed :: after) = first byte rest :=
  ((leads_first byte rest).append_lineFeed notBreak after).eq_first.symm

theorem Leads.head?_behind_comment {bytes behind : Bytes}
    (leads : Leads byte rest (.comment bytes)) (split : byte :: rest = bytes ++ behind)
    {next : UInt8} (isNext : behind.head? = some next) : next = lineFeed := by
  cases leads with
  | comment run isClass isRun =>
      subst isRun
      rw [eq_dropWhile_of_run split] at isNext
      simpa using head?_dropWhile isNext

/-- Only a line feed is behind a string that is not closed. -/
theorem head?_behind_open {inside after behind : Bytes} (parts : rest = inside ++ after)
    (ends : ∀ next, after.head? = some next → next = lineFeed)
    (split : byte :: rest = byte :: inside ++ behind) :
    ∀ next, behind.head? = some next → next = lineFeed := by
  rw [parts, List.cons_append, List.cons.injEq, List.append_cancel_left_eq] at split
  exact split.2 ▸ ends

@[simp]
theorem first_lineFeed (rest : Bytes) :
    first lineFeed rest = lineBreak (rest.takeWhile isMargin) :=
  rfl

theorem first_blank (isBlank : ByteClass.of byte = .blank) (rest : Bytes) :
    first byte rest = blank byte := by
  rw [first, isBlank]

theorem first_foreign (isForeign : ByteClass.of byte = .foreign) (rest : Bytes) :
    first byte rest = dropped byte := by
  rw [first, isForeign]

/-! ## Lexemes -/

theorem Leads.kind_of_lexeme {kind : Kind} {text : Option Bytes} {bytes : Bytes}
    (leads : Leads byte rest (.lexeme kind text bytes)) :
    kind.isSynthetic = false ∧ kind ≠ .newline := by
  cases leads with
  | number run isClass isRun =>
      rcases numberKind_eq (byte :: run) with same | same | same <;>
        rw [same] <;> exact ⟨rfl, Kind.noConfusion⟩
  | _ => exact ⟨rfl, Kind.noConfusion⟩

end Piece

end LayoutLexer
