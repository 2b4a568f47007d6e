import LayoutLexer.Scanner
import LayoutLexer.Proofs.LineTokens

/-!
# Levels of indentation

The marks of layout of a source follow from the margins of its lines.  Behind
the newline token of a line stand the marks that lead from the level of that
line to the level of the next one, and there are no marks anywhere else.  The
first line has level zero whatever its margin is.

The marks never lead below level zero.  Tokens that lead from one level to another
can be put one behind the other, and every part of a scan is of this kind.
-/

namespace LayoutLexer

/-- The level of a line of a source.  The first line has level zero, and any other line
has a fourth of one more than the number of its leading spaces and tabs. -/
def levelOf (source : Bytes) : (number : Nat) → Nat
  | 0 => 0
  | number + 1 =>
    (((lineAt source (number + 1)).takeWhile fun byte => byte == 32 || byte == 9).length + 1) / 4

/-- A mark of layout, which covers the columns of one level. -/
def layoutMark (kind : Kind) (line : Nat) : Token where
  kind
  text := none
  line
  startColumn := 0
  endColumn := 4

/-- What stands between lines of two levels: as many indents as the second is
deeper, or as many dedents as it is shallower. -/
def marksBetween (line before after : Nat) : List Token :=
  if before < after then List.replicate (after - before) (layoutMark .indent line)
  else List.replicate (before - after) (layoutMark .dedent line)

def indents (tokens : List Token) : Nat :=
  tokens.countP fun token => token.kind = .indent

def dedents (tokens : List Token) : Nat :=
  tokens.countP fun token => token.kind = .dedent

theorem layoutTokens_eq_append (line before after : Nat) :
    layoutTokens line before after =
      List.replicate (after - before) (layoutMark .indent line) ++
        List.replicate (before - after) (layoutMark .dedent line) :=
  rfl

theorem layoutTokens_eq_marksBetween (line before after : Nat) :
    layoutTokens line before after = marksBetween line before after := by
  rw [layoutTokens_eq_append, marksBetween]
  split
  · rename_i deeper
    rw [Nat.sub_eq_zero_of_le (Nat.le_of_lt deeper), List.replicate_zero, List.append_nil]
  · rename_i notDeeper
    rw [Nat.sub_eq_zero_of_le (Nat.le_of_not_lt notDeeper), List.replicate_zero, List.nil_append]

/-! ## Tokens between two levels -/

/-- Tokens that lead from one level of indentation to another.  On the way the
dedents never outweigh the indents by more than the first level. -/
structure LeadsBetween (before after : Nat) (tokens : List Token) : Prop where
  dedents_le : ∀ seen, seen <+: tokens → dedents seen ≤ before + indents seen
  level_eq : before + indents tokens = after + dedents tokens

namespace LeadsBetween

variable {before between after : Nat} {first second tokens : List Token}

theorem append (leads : LeadsBetween before between first)
    (goesOn : LeadsBetween between after second) : LeadsBetween before after (first ++ second) where
  dedents_le := by
    intro seen isPrefix
    rcases List.prefix_or_prefix_of_prefix isPrefix (List.prefix_append first second) with
      inFirst | beyond
    · exact leads.dedents_le seen inFirst
    · obtain ⟨more, rfl⟩ := beyond
      have bound := goesOn.dedents_le more ((List.prefix_append_right_inj first).mp isPrefix)
      have level := leads.level_eq
      simp only [dedents, indents, List.countP_append] at bound level ⊢
      omega
  level_eq := by
    have level := leads.level_eq
    have next := goesOn.level_eq
    simp only [dedents, indents, List.countP_append] at level next ⊢
    omega

theorem of_no_marks (noMarks : ∀ token ∈ tokens, token.isMark = false) (level : Nat) :
    LeadsBetween level level tokens := by
  have none {seen : List Token} (subset : seen ⊆ tokens) : indents seen = 0 ∧ dedents seen = 0 := by
    have unmarked : ∀ token ∈ seen, token.kind ≠ .indent ∧ token.kind ≠ .dedent := by
      intro token member
      simpa [Token.isMark] using noMarks token (subset member)
    simp only [indents, dedents, List.countP_eq_zero, decide_eq_true_eq]
    exact ⟨fun token member => (unmarked token member).1,
      fun token member => (unmarked token member).2⟩
  constructor
  · intro seen isPrefix
    rw [(none isPrefix.subset).2]
    exact Nat.zero_le _
  · rw [(none (List.Subset.refl _)).1, (none (List.Subset.refl _)).2]

theorem replicate_indent (level count line : Nat) :
    LeadsBetween level (level + count) (List.replicate count (layoutMark .indent line)) where
  dedents_le := by
    intro seen isPrefix
    rw [(List.prefix_replicate_iff.mp isPrefix).2]
    simp [dedents, layoutMark, List.countP_replicate]
  level_eq := by simp [dedents, indents, layoutMark, List.countP_replicate]

theorem replicate_dedent (level count line : Nat) :
    LeadsBetween (level + count) level (List.replicate count (layoutMark .dedent line)) where
  dedents_le := by
    intro seen isPrefix
    have bound : seen.length ≤ count := (List.prefix_replicate_iff.mp isPrefix).1
    have few : dedents seen ≤ seen.length := List.countP_le_length
    omega
  level_eq := by simp [dedents, indents, layoutMark, List.countP_replicate]

theorem layoutTokens (line before after : Nat) :
    LeadsBetween before after (layoutTokens line before after) := by
  have up := replicate_indent before (after - before) line
  have down := replicate_dedent after (before - after) line
  have top : before + (after - before) = after + (before - after) := by omega
  rw [layoutTokens_eq_append]
  exact up.append (top ▸ down)

end LeadsBetween

theorem isMark_of_mem_map_onLine {line : Bytes} (oneLine : lineFeed ∉ line) {number : Nat}
    {token : Token} (member : token ∈ (scan line).map (Token.onLine number)) :
    token.isMark = false := by
  rw [← filter_isMark_map_onLine oneLine number] at member
  simpa using (List.mem_filter.mp member).2

/-- The tokens of lines lead from the level of the first line to that of the last. -/
theorem leadsBetween_tokensOfLines {line : Bytes} {later : List Bytes}
    (oneLine : ∀ other ∈ line :: later, lineFeed ∉ other) (number level : Nat) :
    LeadsBetween level (later.foldl (fun _ other => lineLevel other) level)
      (tokensOfLines number level (line :: later)) := by
  induction later generalizing line number level with
  | nil =>
      refine .of_no_marks (fun token member => ?_) level
      exact isMark_of_mem_map_onLine (oneLine line List.mem_cons_self) member
  | cons next later ih =>
      have noMarks : ∀ token ∈ (scan line).map (Token.onLine number) ++
          [newlineToken number (lineWidth line)], token.isMark = false := by
        intro token member
        rcases List.mem_append.mp member with inLine | isBreak
        · exact isMark_of_mem_map_onLine (oneLine line List.mem_cons_self) inLine
        · rw [List.mem_singleton.mp isBreak]
          rfl
      have here := LeadsBetween.of_no_marks noMarks level
      have marks := LeadsBetween.layoutTokens (number + 1) level (lineLevel next)
      have behind := ih (fun other member => oneLine other (List.mem_cons_of_mem _ member))
        (number + 1) (lineLevel next)
      have whole := here.append (marks.append behind)
      rwa [List.append_assoc] at whole

/-! ## The marks of a source -/

/-- The tokens of consecutive lines, line by line. -/
theorem tokensOfLines_eq_flatMap {text : Nat → Bytes} {level : Nat → Nat}
    (levels : ∀ number, level (number + 1) = lineLevel (text (number + 1))) (base count : Nat) :
    tokensOfLines base (level base) ((List.range' base (count + 1)).map text) =
      (scan (text base)).map (Token.onLine base) ++
        (List.range' base count).flatMap fun number =>
          newlineToken number (lineWidth (text number)) ::
            (layoutTokens (number + 1) (level number) (level (number + 1)) ++
              (scan (text (number + 1))).map (Token.onLine (number + 1))) := by
  induction count generalizing base with
  | zero => simp [tokensOfLines]
  | succ count ih =>
      have behind := ih (base + 1)
      rw [List.range'_succ, List.map_cons] at behind
      rw [List.range'_succ, List.range'_succ, List.map_cons, List.map_cons, tokensOfLines,
        ← levels, behind, List.range'_succ, List.flatMap_cons, List.cons_append,
        List.append_assoc]

theorem levelOf_succ (source : Bytes) (number : Nat) :
    levelOf source (number + 1) = lineLevel (lineAt source (number + 1)) :=
  rfl

theorem tokens_eq_flatMap (source : Bytes) :
    scan source =
      (scan (lineAt source 0)).map (Token.onLine 0) ++
        (List.range (source.count lineFeed)).flatMap fun number =>
          newlineToken number (lineWidth (lineAt source number)) ::
            (marksBetween (number + 1) (levelOf source number) (levelOf source (number + 1)) ++
              (scan (lineAt source (number + 1))).map (Token.onLine (number + 1))) := by
  have whole := tokensOfLines_eq_flatMap (levelOf_succ source) 0 (source.count lineFeed)
  rw [← sourceLines_eq_map_range, ← List.range_eq_range'] at whole
  simp only [← layoutTokens_eq_marksBetween]
  exact (scan_eq_tokensOfLines source).trans whole

/-- The tokens of a source lead from level zero to the level at its end. -/
theorem leadsBetween_scan (source : Bytes) :
    LeadsBetween 0 (Scanner.new source).tokenize.indentLevel (scan source) := by
  obtain ⟨first, later, lines⟩ := List.exists_cons_of_ne_nil (sourceLines_ne_nil source)
  have oneLine : ∀ line ∈ first :: later, lineFeed ∉ line := fun line member =>
    lineFeed_not_mem_of_mem_sourceLines (lines ▸ member)
  have level : (Scanner.new source).tokenize.indentLevel =
      later.foldl (fun _ line => lineLevel line) 0 := level_advanceAll_cut lines .start
  rw [level, scan_eq_tokensOfLines, lines]
  exact leadsBetween_tokensOfLines oneLine 0 0

/-- The level at the end of a source is that of its last line. -/
theorem indentLevel_tokenize (source : Bytes) :
    (Scanner.new source).tokenize.indentLevel = levelOf source (source.count lineFeed) := by
  obtain ⟨first, later, lines⟩ := List.exists_cons_of_ne_nil (sourceLines_ne_nil source)
  have count : source.count lineFeed = later.length := by
    have length := length_sourceLines source
    rw [lines, List.length_cons] at length
    omega
  have level : (Scanner.new source).tokenize.indentLevel =
      later.foldl (fun _ line => lineLevel line) 0 := level_advanceAll_cut lines .start
  rw [level, count]
  rcases List.eq_nil_or_concat later with rfl | ⟨earlier, last, isConcat⟩
  · rfl
  · rw [List.concat_eq_append] at isConcat
    subst isConcat
    have isLast : lineAt source (earlier.length + 1) = last := by simp [lineAt, lines]
    rw [List.foldl_append, List.length_append, List.length_singleton, levelOf_succ, isLast]
    rfl

/-- Behind a line feed at the end of a source there is one more line, and it is
empty. -/
theorem levelOf_last_eq_zero {source : Bytes} (isBreak : source.getLast? = some lineFeed) :
    levelOf source (source.count lineFeed) = 0 := by
  obtain ⟨body, rfl⟩ := List.getLast?_eq_some_iff.mp isBreak
  have lines : sourceLines (body ++ [lineFeed]) = sourceLines body ++ [[]] := by
    induction body using line_induction with
    | last line oneLine =>
        rw [sourceLines_cons oneLine, sourceLines_last oneLine]
        rfl
    | cons line rest oneLine ih =>
        have isBreak : (rest ++ [lineFeed]).getLast? = some lineFeed := List.getLast?_concat
        rw [List.append_assoc, List.cons_append, sourceLines_cons oneLine, ih isBreak,
          sourceLines_cons oneLine, List.cons_append]
  have last : lineAt (body ++ [lineFeed]) (body.count lineFeed + 1) = [] := by
    rw [lineAt, lines, ← length_sourceLines, List.getElem?_concat_length, Option.getD_some]
  rw [List.count_append, List.count_singleton_self, levelOf_succ, last]
  rfl

/-- Behind the newline token of every line stand the indents by which the next line is
deeper, or the dedents by which it is shallower, and nowhere else is there a mark of
layout.  No dedent takes back an indent that was not there, and what is left over at
the end is the level of the last line, which is zero behind a line feed. -/
theorem layout_follows_margins (source : Bytes) :
    (∃ (own : Nat → List Token) (column : Nat → Nat),
      (∀ number, ∀ token ∈ own number,
        token.kind ≠ .newline ∧ token.kind ≠ .indent ∧ token.kind ≠ .dedent) ∧
      scan source =
        own 0 ++ (List.range (source.count lineFeed)).flatMap fun number =>
          newlineToken number (column number) ::
            (marksBetween (number + 1) (levelOf source number) (levelOf source (number + 1)) ++
              own (number + 1))) ∧
    (∀ seen, seen <+: scan source → dedents seen ≤ indents seen) ∧
    indents (scan source) = dedents (scan source) + (Scanner.new source).tokenize.indentLevel ∧
    (Scanner.new source).tokenize.indentLevel = levelOf source (source.count lineFeed) ∧
    (source.getLast? = some lineFeed → (Scanner.new source).tokenize.indentLevel = 0) := by
  have leads := leadsBetween_scan source
  refine ⟨⟨fun number => (scan (lineAt source number)).map (Token.onLine number),
    fun number => lineWidth (lineAt source number), fun number token member => ?_,
    tokens_eq_flatMap source⟩, fun seen isPrefix => ?_, ?_, indentLevel_tokenize source,
    fun isBreak => ?_⟩
  · have isOwn := lineFeed_not_mem_lineAt source number
    have notMark := isMark_of_mem_map_onLine isOwn member
    obtain ⟨original, isToken, rfl⟩ := List.mem_map.mp member
    have notNewline := (kind_of_mem_scan_line isOwn isToken).2
    simp only [Token.isMark, Bool.or_eq_false_iff, decide_eq_false_iff_not] at notMark
    exact ⟨notNewline, notMark⟩
  · have bound := leads.dedents_le seen isPrefix
    rwa [Nat.zero_add] at bound
  · have balance := leads.level_eq
    omega
  · rw [indentLevel_tokenize, levelOf_last_eq_zero isBreak]

end LayoutLexer
