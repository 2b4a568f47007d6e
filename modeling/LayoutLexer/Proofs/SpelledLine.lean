import LayoutLexer.Proofs.LineTokens
import LayoutLexer.Proofs.CharacterBoundary

/-!
# Spelling the tokens of a line

The kind and the text of a token settle how it is spelled.  Spelled one after
the other with single spaces between them, the tokens of a line are found again:
a space ends every run, so no token takes up anything of the next.  A string
that is not closed takes up what is behind it, but it is the last of its line,
so nothing is.
-/

namespace LayoutLexer

namespace Symbol

theorem leading?_bytes (sign : Symbol) : leading? sign.bytes = some sign := by
  obtain ⟨byte, tail, bytes⟩ := List.exists_cons_of_ne_nil sign.bytes_ne_nil
  have found : ofBytes? (sign.bytes.take sign.bytes.length) = some sign := by
    rw [List.take_length, ofBytes?_eq_some_iff]
  have length : sign.bytes.length = tail.length + 1 := by rw [bytes, List.length_cons]
  rw [length] at found
  rw [leading?, length, backOff?, found]

/-- A run without a symbol has none in its first byte alone either. -/
theorem leading?_singleton {byte : UInt8} {run : Bytes}
    (notFound : leading? (byte :: run) = none) : leading? [byte] = none := by
  have shorter {length : Nat} (none : backOff? (byte :: run) (length + 1) = none) :
      backOff? (byte :: run) 1 = Option.none := by
    induction length with
    | zero => exact none
    | succ length ih =>
        rw [backOff?] at none
        split at none
        · cases none
        · exact ih none
  exact shorter notFound

end Symbol

/-! ## Spellings -/

def Token.content (token : Token) : Kind × Option Bytes :=
  (token.kind, token.text)

/-- A token is spelled by its text if it has one, and otherwise as the symbol or the
keyword that its kind is. -/
def spelling : Kind × Option Bytes → Bytes
  | (_, some text) => text
  | (.symbol sign, none) => sign.bytes
  | (.keyword word, none) => word.bytes
  | (_, none) => []

/-- Tokens spelled with single spaces between them. -/
def spelled (contents : List (Kind × Option Bytes)) : Bytes :=
  [space].intercalate (contents.map spelling)

theorem spelled_singleton (content : Kind × Option Bytes) :
    spelled [content] = spelling content :=
  List.intercalate_singleton

theorem spelled_cons_cons (content next : Kind × Option Bytes)
    (later : List (Kind × Option Bytes)) :
    spelled (content :: next :: later) = spelling content ++ space :: spelled (next :: later) := by
  rw [spelled, spelled, List.map_cons, List.map_cons, List.intercalate_cons_cons,
    List.append_assoc, List.singleton_append]

namespace Piece

def content? : Piece → Option (Kind × Option Bytes)
  | lexeme kind text _ => some (kind, text)
  | lineBreak _ | comment _ | blank _ | dropped _ => none

variable {byte : UInt8} {rest : Bytes} {piece : Piece} {kind : Kind} {text : Option Bytes}
  {bytes : Bytes}

theorem Leads.exists_tail (leads : Leads byte rest piece) :
    ∃ tail, piece.bytes = byte :: tail := by
  obtain ⟨after, split⟩ := first_bytes_isPrefix byte rest
  obtain ⟨head, tail, same⟩ := List.exists_cons_of_ne_nil (first_bytes_ne_nil byte rest)
  rw [same, List.cons_append, List.cons.injEq] at split
  exact ⟨tail, by rw [leads.eq_first, same, split.1]⟩

theorem Leads.spelling_eq (leads : Leads byte rest (lexeme kind text bytes)) :
    spelling (kind, text) = bytes := by
  cases leads <;> rfl

theorem Leads.isMargin_eq_false (leads : Leads byte rest (lexeme kind text bytes)) :
    isMargin byte = false := by
  rw [← Bool.not_eq_true]
  intro margin
  have isBlank := first_blank (class_of_isMargin margin) rest
  rw [← leads.eq_first] at isBlank
  cases isBlank

/-- A lexeme leads its own bytes again when nothing or a space is behind them.  Only
nothing may be behind them when they were the whole line. -/
theorem Leads.respelled (leads : Leads byte rest (lexeme kind text bytes))
    (oneLine : lineFeed ∉ rest) {tail after : Bytes} (bytesEq : bytes = byte :: tail)
    (stops : ∀ next, after.head? = some next → next = space)
    (atEnd : rest = tail → after = []) :
    Leads byte (tail ++ after) (lexeme kind text bytes) := by
  have sameRun {accepts : UInt8 → Bool} (stop : accepts space = false) {run : Bytes}
      (all : ∀ other ∈ run, accepts other = true) : (run ++ after).takeWhile accepts = run :=
    takeWhile_run_append all fun next isNext => stops next isNext ▸ stop
  cases leads with
  | number run isClass isRun =>
      obtain rfl := (List.cons.inj bytesEq).2
      refine .number _ isClass (sameRun (by decide) fun other member => ?_).symm
      exact accepts_of_mem_takeWhile (isRun ▸ member)
  | keyword word isClass isRun =>
      refine .keyword word isClass ?_
      rw [bytesEq, List.cons.injEq] at isRun
      rw [sameRun (by decide) fun other member => accepts_of_mem_takeWhile (isRun.2 ▸ member),
        bytesEq]
  | identifier run isClass isRun notKeyword =>
      obtain rfl := (List.cons.inj bytesEq).2
      refine .identifier _ isClass (sameRun (by decide) fun other member => ?_).symm notKeyword
      exact accepts_of_mem_takeWhile (isRun ▸ member)
  | string inside behind isClass notQuote oneLine split =>
      obtain rfl := (List.cons.inj bytesEq).2
      exact .string inside after isClass notQuote oneLine (by simp)
  | openString inside behind isClass notQuote notBreak split ends =>
      obtain rfl := (List.cons.inj bytesEq).2
      have nothing : behind = [] := by
        cases behind with
        | nil => rfl
        | cons next behind =>
            rw [split, ends next rfl] at oneLine
            exact absurd (List.mem_append_right _ List.mem_cons_self) oneLine
      rw [nothing, List.append_nil] at split
      rw [atEnd split]
      exact .openString inside [] isClass notQuote notBreak rfl (by simp)
  | symbol sign isClass found =>
      refine .symbol sign isClass ?_
      have isPrefix := Symbol.bytes_isPrefix_of_backOff? found
      rw [bytesEq, List.cons_prefix_cons] at isPrefix
      rw [sameRun (by decide) fun other member =>
        accepts_of_mem_takeWhile (isPrefix.2.subset member), ← bytesEq, Symbol.leading?_bytes]
  | sign isClass notFound =>
      obtain rfl := (List.cons.inj bytesEq).2
      refine .sign isClass ?_
      rw [sameRun (by decide) (by simp), Symbol.leading?_singleton notFound]

end Piece

theorem cut_lexeme_append {byte : UInt8} {rest after behind : Bytes} {kind : Kind}
    {text : Option Bytes} {bytes : Bytes}
    (leads : Piece.Leads byte rest (.lexeme kind text bytes)) (oneLine : lineFeed ∉ rest)
    (split : byte :: rest = bytes ++ after)
    (stops : ∀ next, behind.head? = some next → next = space)
    (atEnd : after = [] → behind = []) :
    cut (bytes ++ behind) = .lexeme kind text bytes :: cut behind := by
  obtain ⟨tail, bytesEq⟩ := leads.exists_tail
  rw [Piece.bytes] at bytesEq
  have restEq : rest = tail ++ after := by
    rw [bytesEq, List.cons_append, List.cons.injEq] at split
    exact split.2
  have again := leads.respelled oneLine bytesEq stops fun whole =>
    atEnd (List.append_right_eq_self.mp (restEq.symm.trans whole))
  rw [bytesEq, List.cons_append, cut_cons, ← again.eq_first, bytesEq]
  rw [← again.eq_first, Piece.bytes, bytesEq, List.cons_append]

/-! ## The tokens of a line -/

def contents (line : Bytes) : List (Kind × Option Bytes) :=
  (cut line).filterMap Piece.content?

theorem map_content_tokensFrom {pieces : List Piece}
    (unbroken : ∀ piece ∈ pieces, ∀ margin, piece ≠ .lineBreak margin) (cursor : Cursor) :
    (tokensFrom cursor pieces).map Token.content = pieces.filterMap Piece.content? := by
  induction pieces generalizing cursor with
  | nil => rfl
  | cons piece pieces ih =>
      have here : (PlacedPiece.tokens { cursor, piece }).map Token.content =
          piece.content?.toList := by
        cases piece with
        | lineBreak margin => exact absurd rfl (unbroken _ List.mem_cons_self margin)
        | _ => rfl
      rw [tokensFrom_cons, List.map_append, here,
        ih fun other member => unbroken other (List.mem_cons_of_mem _ member)]
      cases h : piece.content? <;> simp [h]

theorem map_content_scan {line : Bytes} (oneLine : lineFeed ∉ line) :
    (scan line).map Token.content = contents line :=
  map_content_tokensFrom (fun _ member => ne_lineBreak_of_mem_cut oneLine member) .start

theorem lexeme_of_mem_contents {line : Bytes} {content : Kind × Option Bytes}
    (member : content ∈ contents line) :
    .lexeme content.1 content.2 (spelling content) ∈ cut line := by
  obtain ⟨piece, isPiece, isContent⟩ := List.mem_filterMap.mp member
  obtain ⟨byte, rest, -, isFirst⟩ := eq_first_of_mem_cut isPiece
  have leads := Piece.leads_iff.mpr isFirst
  cases piece with
  | lexeme kind text bytes =>
      rw [Piece.content?, Option.some.injEq] at isContent
      rw [← isContent, leads.spelling_eq]
      exact isPiece
  | _ => cases isContent

/-- Every token of a line is spelled in bytes of that line, the first of which is
neither a space nor a tab. -/
theorem spelling_of_mem_contents {line : Bytes} {content : Kind × Option Bytes}
    (member : content ∈ contents line) :
    ∃ byte tail, spelling content = byte :: tail ∧ isMargin byte = false ∧
      spelling content ⊆ line := by
  obtain ⟨byte, rest, suffix, isFirst⟩ := eq_first_of_mem_cut (lexeme_of_mem_contents member)
  have leads := Piece.leads_iff.mpr isFirst
  obtain ⟨tail, bytesEq⟩ := leads.exists_tail
  have isPrefix := Piece.first_bytes_isPrefix byte rest
  rw [← isFirst] at isPrefix
  exact ⟨byte, tail, bytesEq, leads.isMargin_eq_false,
    fun _ inSpelling => suffix.subset (isPrefix.subset inSpelling)⟩

theorem isUtf8_spelled {line : Bytes} (isText : isUtf8 line = true) :
    isUtf8 (spelled (contents line)) = true := by
  refine isUtf8_intercalate (by decide) fun text member => ?_
  obtain ⟨content, isContent, rfl⟩ := List.mem_map.mp member
  exact isUtf8_bytes_of_mem_cut isText (lexeme_of_mem_contents isContent) rfl

theorem lineFeed_not_mem_spelled {line : Bytes} (oneLine : lineFeed ∉ line) :
    lineFeed ∉ spelled (contents line) := by
  have absent : ∀ content ∈ contents line, lineFeed ∉ spelling content := by
    intro content member inSpelling
    obtain ⟨byte, tail, -, -, subset⟩ := spelling_of_mem_contents member
    exact oneLine (subset inSpelling)
  generalize contents line = list at absent
  induction list with
  | nil => exact List.not_mem_nil
  | cons content list ih =>
      have here := absent content List.mem_cons_self
      have later := ih fun other member => absent other (List.mem_cons_of_mem _ member)
      cases list with
      | nil => rwa [spelled_singleton]
      | cons next list =>
          rw [spelled_cons_cons, List.mem_append, List.mem_cons, not_or, not_or]
          exact ⟨here, by decide, later⟩

theorem takeWhile_isMargin_spelled (line : Bytes) :
    (spelled (contents line)).takeWhile isMargin = [] := by
  cases contentsEq : contents line with
  | nil => rfl
  | cons content list =>
      obtain ⟨byte, tail, spellingEq, notMargin, -⟩ :=
        spelling_of_mem_contents (contentsEq ▸ List.mem_cons_self)
      rw [spelled, List.map_cons, spellingEq, List.intercalate_cons_cons_left,
        List.takeWhile_cons_of_neg (by simp [notMargin])]

/-- The tokens of a line are found again in how they are spelled. -/
theorem contents_spelled {line : Bytes} (oneLine : lineFeed ∉ line) :
    contents (spelled (contents line)) = contents line := by
  induction line using cut_induction with
  | nil => simp [contents, spelled]
  | cons byte rest after split ih =>
      have notInRest : lineFeed ∉ rest := fun member => oneLine (List.mem_cons_of_mem _ member)
      have notInAfter : lineFeed ∉ after := fun member =>
        oneLine (split ▸ List.mem_append_right _ member)
      have leads := Piece.leads_first byte rest
      have contentsEq : contents (byte :: rest) =
          (Piece.first byte rest).content?.toList ++ contents after := by
        rw [contents, cut_cons split, contents]
        cases h : (Piece.first byte rest).content? <;> simp [h]
      rw [contentsEq]
      cases isPiece : Piece.first byte rest with
      | lexeme kind text bytes =>
          rw [isPiece] at leads split
          change contents (spelled ((kind, text) :: contents after)) = _ :: contents after
          cases laterEq : contents after with
          | nil =>
              -- The last lexeme may be an open string, and nothing is spelled behind it.
              have again := cut_lexeme_append leads notInRest split (by simp) fun _ => rfl
              rw [List.append_nil, cut_nil] at again
              rw [spelled_singleton, leads.spelling_eq, contents, again]
              rfl
          | cons next later =>
              -- More tokens are to come, so this lexeme does not reach the end of the line.
              have atEnd : after = [] → space :: spelled (next :: later) = [] := by
                rintro rfl
                simp [contents] at laterEq
              have again := cut_lexeme_append leads notInRest split (by simp) atEnd
              have behind : cut (space :: spelled (next :: later)) =
                  .blank space :: cut (spelled (next :: later)) :=
                cut_cons rfl
              have found := ih notInAfter
              rw [laterEq, contents] at found
              rw [spelled_cons_cons, leads.spelling_eq, contents, again, behind]
              exact congrArg ((kind, text) :: ·) found
      | _ => exact ih notInAfter

end LayoutLexer
