import LayoutLexer.Proofs.LineTokens

/-!
# The texts of tokens

A token is printed with its text as it stands in the source, so a reader of the
printed tokens has to find out where a text ends.  Most texts show it: they hold
no space, or they are closed by the quote that they begin with.  Only a string
that is not closed shows nothing.  It goes on to the end of its line, so there is
no token behind it but the newline token, if there is one.
-/

namespace LayoutLexer

/-- Kinds and texts of tokens that a reader can tell the end of: there is no text, or
a text without a space that no quote begins, or a text between two quotes. -/
inductive Delimited : Kind → Option Bytes → Prop
  | bare {kind : Kind} : kind.carriesText = false → Delimited kind none
  | plain {kind : Kind} {byte : UInt8} {tail : Bytes} : kind.carriesText = true →
      kind ≠ .string → ByteClass.of byte ≠ .quote → space ∉ byte :: tail →
      Delimited kind (some (byte :: tail))
  | quoted {quote : UInt8} {inside : Bytes} : quote ∉ inside →
      Delimited .string (some (quote :: (inside ++ [quote])))

/-- The kind and the text of a string that its line ends before it is closed. -/
inductive OpenText : Kind → Option Bytes → Prop
  | opened {quote : UInt8} {inside : Bytes} : ByteClass.of quote = .quote →
      lineFeed ∉ quote :: inside → OpenText .unknown (some (quote :: inside))

theorem OpenText.exists_text {kind : Kind} {text : Option Bytes} (isOpen : OpenText kind text) :
    kind = .unknown ∧ ∃ bytes, text = some bytes ∧ lineFeed ∉ bytes := by
  cases isOpen with
  | opened isQuote oneLine => exact ⟨rfl, _, rfl, oneLine⟩

/-- Tokens of which a reader can tell where each of them ends. -/
inductive Readable : List Token → Prop
  | nil : Readable []
  | delimited {token : Token} {tokens : List Token} : Delimited token.kind token.text →
      Readable tokens → Readable (token :: tokens)
  | opened {token : Token} {tokens : List Token} : OpenText token.kind token.text →
      (∀ next, tokens.head? = some next → next.kind = .newline ∧ next.text = none) →
      Readable tokens → Readable (token :: tokens)

theorem Readable.append {marks tokens : List Token}
    (areDelimited : ∀ mark ∈ marks, Delimited mark.kind mark.text) (readable : Readable tokens) :
    Readable (marks ++ tokens) := by
  induction marks with
  | nil => exact readable
  | cons mark marks ih =>
      exact .delimited (areDelimited mark List.mem_cons_self)
        (ih fun other member => areDelimited other (List.mem_cons_of_mem _ member))

theorem delimited_of_mem_layoutTokens {line before after : Nat} {token : Token}
    (member : token ∈ layoutTokens line before after) : Delimited token.kind token.text := by
  obtain ⟨-, -, bare, noText⟩ := of_mem_layoutTokens member
  rw [noText]
  exact .bare bare

namespace Piece

variable {byte : UInt8} {rest : Bytes} {kind : Kind} {text : Option Bytes} {bytes : Bytes}

theorem carriesText_numberKind (run : Bytes) :
    (numberKind run).carriesText = true ∧ numberKind run ≠ .string := by
  rcases numberKind_eq run with same | same | same <;> rw [same] <;> exact ⟨rfl, Kind.noConfusion⟩

/-- The text of a lexeme shows its end, or it is that of a string that is not closed
and only a line feed can be behind it. -/
theorem Leads.delimited_or_open (leads : Leads byte rest (lexeme kind text bytes)) :
    Delimited kind text ∨ OpenText kind text ∧ ∀ after, byte :: rest = bytes ++ after →
      ∀ next, after.head? = some next → next = lineFeed := by
  have noSpace {accepts : UInt8 → Bool} (isFirst : space ≠ byte) (stop : accepts space = false) :
      space ∉ byte :: rest.takeWhile accepts := by
    rw [List.mem_cons, not_or]
    exact ⟨isFirst, not_mem_takeWhile stop rest⟩
  cases leads with
  | number run isClass isRun =>
      obtain ⟨carries, notString⟩ := carriesText_numberKind (byte :: run)
      exact .inl (.plain carries notString (isClass ▸ ByteClass.noConfusion)
        (isRun ▸ noSpace (ne_of_class isClass (by decide)) (by decide)))
  | keyword word isClass isRun => exact .inl (.bare rfl)
  | identifier run isClass isRun notKeyword =>
      exact .inl (.plain rfl Kind.noConfusion (isClass ▸ ByteClass.noConfusion)
        (isRun ▸ noSpace (ne_of_class isClass (by decide)) (by decide)))
  | string inside after isClass notQuote oneLine split => exact .inl (.quoted notQuote)
  | openString inside behind isClass notQuote oneLine split ends =>
      have notBreak : byte ≠ lineFeed := ne_lineFeed_of_class isClass ByteClass.noConfusion
      refine .inr ⟨.opened isClass ?_, fun after parts => ?_⟩
      · rw [List.mem_cons, not_or]
        exact ⟨notBreak.symm, oneLine⟩
      · exact head?_behind_open split ends parts
  | symbol sign isClass found => exact .inl (.bare rfl)
  | sign isClass notFound =>
      refine .inl (.plain rfl Kind.noConfusion (isClass ▸ ByteClass.noConfusion) ?_)
      rw [List.mem_singleton]
      exact ne_of_class isClass (by decide)

end Piece

/-- The first token of a text that begins with a line feed, if at all, is a newline
token at the place of the text. -/
theorem eq_newline_of_head?_tokensFrom {cursor : Cursor} {source : Bytes}
    (ends : ∀ byte, source.head? = some byte → byte = lineFeed) {next : Token}
    (isNext : (tokensFrom cursor (cut source)).head? = some next) :
    next = newlineToken cursor.line cursor.column := by
  cases source with
  | nil =>
      rw [cut_nil] at isNext
      cases isNext
  | cons byte rest =>
      obtain rfl := ends byte rfl
      rw [cut_lineFeed_cons, tokensFrom_cons] at isNext
      exact (Option.some.inj isNext).symm

/-- A reader can tell where each token of a source ends. -/
theorem readable_tokensFrom (cursor : Cursor) (source : Bytes) :
    Readable (tokensFrom cursor (cut source)) := by
  induction source using cut_induction generalizing cursor with
  | nil =>
      rw [cut_nil]
      exact .nil
  | cons byte rest after split ih =>
      rw [cut_cons split, tokensFrom_cons]
      have behind := ih (cursor.advance (Piece.first byte rest))
      have leads := Piece.leads_first byte rest
      generalize Piece.first byte rest = piece at leads split behind ⊢
      cases piece with
      | lexeme kind text bytes =>
          rcases leads.delimited_or_open with isDelimited | ⟨isOpen, ends⟩
          · exact .delimited isDelimited behind
          · refine .opened isOpen (fun next isNext => ?_) behind
            rw [eq_newline_of_head?_tokensFrom (ends after split) isNext]
            exact ⟨rfl, rfl⟩
      | lineBreak margin =>
          exact .delimited (.bare rfl) (behind.append fun _ => delimited_of_mem_layoutTokens)
      | comment bytes => exact behind
      | blank other => exact behind
      | dropped other => exact behind

end LayoutLexer
