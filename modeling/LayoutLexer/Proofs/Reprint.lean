import LayoutLexer.Scanner
import LayoutLexer.Proofs.SpelledLine

/-!
# Printing tokens and scanning them again

From the tokens of a source alone a text is printed: every line has its tokens,
spelled with single spaces between them, behind as many spaces as its level asks
for.  Scanning that text gives the same tokens on the same lines.  So the tokens
keep all of the source but its spacing, its comments and the bytes dropped.
-/

namespace LayoutLexer

/-! ## The printed text -/

def Token.isNewline (token : Token) : Bool :=
  token.kind = .newline

/-- How many more indents than dedents there are among tokens. -/
def depth (tokens : List Token) : Nat :=
  tokens.countP (fun token => token.kind = .indent) -
    tokens.countP (fun token => token.kind = .dedent)

/-- The tokens of a line, spelled but for the marks of layout. -/
def printedLine (tokens : List Token) : Bytes :=
  spelled ((tokens.filter fun token => !token.isMark).map Token.content)

/-- The lines behind the tokens already seen.  The marks up to a line, its own among
them, settle its margin. -/
def printedLines (seen : List Token) : List (List Token) → List Bytes
  | [] => []
  | tokens :: later =>
    (List.replicate (tabSize * depth (seen ++ tokens)) space ++ printedLine tokens) ::
      printedLines (seen ++ tokens) later

/-- The text that tokens are printed as.  A newline token ends a line, and the first
line has no margin. -/
def reprint (tokens : List Token) : Bytes :=
  match tokens.splitOnP Token.isNewline with
  | [] => []
  | first :: later => [lineFeed].intercalate (printedLine first :: printedLines first later)

/-! ## The lines of the printed text -/

/-- A line as it is printed, if it is not the first. -/
def respelledLine (line : Bytes) : Bytes :=
  List.replicate (tabSize * lineLevel line) space ++ spelled (contents line)

/-- The tokens of each line behind a line of the given level, the marks of layout
included. -/
def groupsOfLines (number level : Nat) : List Bytes → List (List Token)
  | [] => []
  | line :: later =>
    (layoutTokens number level (lineLevel line) ++ (scan line).map (Token.onLine number)) ::
      groupsOfLines (number + 1) (lineLevel line) later

theorem isNewline_of_mem_layoutTokens {line before after : Nat} {token : Token}
    (member : token ∈ layoutTokens line before after) : token.isNewline = false := by
  obtain ⟨-, notNewline, -⟩ := of_mem_layoutTokens member
  exact decide_eq_false notNewline

theorem isNewline_of_mem_map_onLine {line : Bytes} (oneLine : lineFeed ∉ line) {number : Nat}
    {token : Token} (member : token ∈ (scan line).map (Token.onLine number)) :
    token.isNewline = false := by
  obtain ⟨original, isToken, rfl⟩ := List.mem_map.mp member
  exact decide_eq_false (kind_of_mem_scan_line oneLine isToken).2

/-- The newline tokens divide the tokens of lines line by line. -/
theorem splitOnP_tokensOfLines {first : Bytes} {later : List Bytes}
    (oneLine : ∀ line ∈ first :: later, lineFeed ∉ line) (number level : Nat)
    {front : List Token} (unbroken : ∀ token ∈ front, token.isNewline = false) :
    (front ++ tokensOfLines number level (first :: later)).splitOnP Token.isNewline =
      (front ++ (scan first).map (Token.onLine number)) ::
        groupsOfLines (number + 1) level later := by
  -- The marks of layout of a line are in front of it, and grow into its group.
  induction later generalizing first number level front with
  | nil =>
      refine List.splitOnP_eq_singleton fun token member => ?_
      rcases List.mem_append.mp member with inFront | inLine
      · exact unbroken token inFront
      · exact isNewline_of_mem_map_onLine (oneLine first List.mem_cons_self) inLine
  | cons next later ih =>
      have unbrokenLine : ∀ token ∈ front ++ (scan first).map (Token.onLine number),
          token.isNewline = false := by
        intro token member
        rcases List.mem_append.mp member with inFront | inLine
        · exact unbroken token inFront
        · exact isNewline_of_mem_map_onLine (oneLine first List.mem_cons_self) inLine
      rw [tokensOfLines, ← List.append_assoc,
        List.splitOnP_append_cons_of_forall_mem unbrokenLine _ rfl,
        ih (fun line member => oneLine line (List.mem_cons_of_mem _ member)) _ _
          fun token => isNewline_of_mem_layoutTokens]
      rfl

/-- The level of a line is the number of indents that are not taken back. -/
def Balanced (seen : List Token) (level : Nat) : Prop :=
  seen.countP (fun token => token.kind = .indent) =
    seen.countP (fun token => token.kind = .dedent) + level

theorem Balanced.depth_eq {seen : List Token} {level : Nat} (balanced : Balanced seen level) :
    depth seen = level := by
  rw [depth, balanced, Nat.add_sub_cancel_left]

theorem countP_map_onLine {line : Bytes} (oneLine : lineFeed ∉ line) (number : Nat)
    (kind : Kind) (isSynthetic : kind.isSynthetic = true) :
    ((scan line).map (Token.onLine number)).countP (fun token => token.kind = kind) = 0 := by
  rw [List.countP_eq_zero]
  intro token member
  obtain ⟨original, isToken, rfl⟩ := List.mem_map.mp member
  have notSynthetic := (kind_of_mem_scan_line oneLine isToken).1
  rw [decide_eq_true_iff]
  intro same
  rw [show original.kind = kind from same, isSynthetic] at notSynthetic
  exact Bool.noConfusion notSynthetic

/-- The marks of layout of a line bring the balance to its level. -/
theorem Balanced.append_line {seen : List Token} {level : Nat} (balanced : Balanced seen level)
    {line : Bytes} (oneLine : lineFeed ∉ line) (number : Nat) :
    Balanced (seen ++ (layoutTokens number level (lineLevel line) ++
      (scan line).map (Token.onLine number))) (lineLevel line) := by
  have indents : (layoutTokens number level (lineLevel line)).countP
      (fun token => token.kind = .indent) = lineLevel line - level := by
    simp [layoutTokens, List.countP_replicate]
  have dedents : (layoutTokens number level (lineLevel line)).countP
      (fun token => token.kind = .dedent) = level - lineLevel line := by
    simp [layoutTokens, List.countP_replicate]
  unfold Balanced at balanced ⊢
  simp only [List.countP_append, indents, dedents,
    countP_map_onLine oneLine number .indent rfl, countP_map_onLine oneLine number .dedent rfl]
  omega

theorem printedLine_eq {line : Bytes} (oneLine : lineFeed ∉ line) (number before after : Nat) :
    printedLine (layoutTokens number before after ++ (scan line).map (Token.onLine number)) =
      spelled (contents line) := by
  rw [printedLine, List.filter_append, filter_isMark_layoutTokens, List.nil_append,
    filter_isMark_map_onLine oneLine, List.map_map, ← map_content_scan oneLine]
  rfl

theorem printedLines_groupsOfLines {later : List Bytes}
    (oneLine : ∀ line ∈ later, lineFeed ∉ line) (number : Nat) {seen : List Token} {level : Nat}
    (balanced : Balanced seen level) :
    printedLines seen (groupsOfLines number level later) = later.map respelledLine := by
  induction later generalizing number seen level with
  | nil => rfl
  | cons line later ih =>
      have thisLine := oneLine line List.mem_cons_self
      have next := balanced.append_line thisLine number
      rw [groupsOfLines, printedLines, next.depth_eq, printedLine_eq thisLine,
        ih (fun other member => oneLine other (List.mem_cons_of_mem _ member)) _ next]
      rfl

theorem balanced_first {first : Bytes} (oneLine : lineFeed ∉ first) (number : Nat) :
    Balanced ((scan first).map (Token.onLine number)) 0 := by
  unfold Balanced
  rw [countP_map_onLine oneLine number .indent rfl, countP_map_onLine oneLine number .dedent rfl]

theorem lineFeed_not_mem_respelledLine {line : Bytes} (oneLine : lineFeed ∉ line) :
    lineFeed ∉ respelledLine line := by
  rw [respelledLine, List.mem_append, not_or]
  refine ⟨fun member => ?_, lineFeed_not_mem_spelled oneLine⟩
  exact absurd (List.eq_of_mem_replicate member) (by decide)

/-- The lines of the printed text are the lines of the source, spelled again. -/
theorem sourceLines_reprint {source first : Bytes} {later : List Bytes}
    (lines : sourceLines source = first :: later) :
    sourceLines (reprint (scan source)) = spelled (contents first) :: later.map respelledLine := by
  have oneLine : ∀ line ∈ first :: later, lineFeed ∉ line := fun line member =>
    lineFeed_not_mem_of_mem_sourceLines (lines ▸ member)
  have firstLine := oneLine first List.mem_cons_self
  have laterLines := fun line member => oneLine line (List.mem_cons_of_mem _ member)
  have groups := splitOnP_tokensOfLines oneLine 0 0 (List.forall_mem_nil _)
  rw [List.nil_append, List.nil_append] at groups
  have printedFirst : printedLine ((scan first).map (Token.onLine 0)) = spelled (contents first) :=
    printedLine_eq firstLine 0 0 0
  rw [reprint, scan_eq_tokensOfLines, lines, groups]
  dsimp only
  rw [printedFirst, printedLines_groupsOfLines laterLines _ (balanced_first firstLine 0)]
  refine List.splitOn_intercalate lineFeed ?_ (List.cons_ne_nil _ _)
  intro line member
  rcases List.mem_cons.mp member with rfl | isLater
  · exact lineFeed_not_mem_spelled firstLine
  · obtain ⟨original, isOriginal, rfl⟩ := List.mem_map.mp isLater
    exact lineFeed_not_mem_respelledLine (laterLines original isOriginal)

theorem isUtf8_respelledLine {line : Bytes} (isText : isUtf8 line = true) :
    isUtf8 (respelledLine line) = true := by
  refine isUtf8_append (isUtf8_of_ascii fun byte member => ?_) (isUtf8_spelled isText)
  rw [List.eq_of_mem_replicate member]
  decide

theorem isUtf8_reprint {source : Bytes} (isText : isUtf8 source = true) :
    isUtf8 (reprint (scan source)) = true := by
  obtain ⟨first, later, lines⟩ := List.exists_cons_of_ne_nil (sourceLines_ne_nil source)
  have areTexts : ∀ line ∈ first :: later, isUtf8 line = true := fun line member =>
    isUtf8_of_mem_sourceLines isText (lines ▸ member)
  have joined : [lineFeed].intercalate (sourceLines (reprint (scan source))) =
      reprint (scan source) := List.intercalate_splitOn lineFeed
  rw [← joined, sourceLines_reprint lines]
  refine isUtf8_intercalate (by decide) fun line member => ?_
  rcases List.mem_cons.mp member with rfl | isLater
  · exact isUtf8_spelled (areTexts first List.mem_cons_self)
  · obtain ⟨original, isOriginal, rfl⟩ := List.mem_map.mp isLater
    exact isUtf8_respelledLine (areTexts original (List.mem_cons_of_mem _ isOriginal))

/-! ## The tokens of the printed text -/

theorem contents_respelledLine {line : Bytes} (oneLine : lineFeed ∉ line) :
    contents (respelledLine line) = contents line := by
  have areBlank : ∀ byte ∈ List.replicate (tabSize * lineLevel line) space,
      ByteClass.of byte = .blank := fun byte member => List.eq_of_mem_replicate member ▸ rfl
  have silent : ((List.replicate (tabSize * lineLevel line) space).map Piece.blank).filterMap
      Piece.content? = [] := by
    rw [List.filterMap_map]
    exact List.filterMap_eq_nil_iff.mpr fun _ _ => rfl
  rw [contents, respelledLine, cut_blanks_append areBlank, List.filterMap_append, silent,
    List.nil_append]
  exact contents_spelled oneLine

/-- A margin of whole levels has that many levels. -/
theorem lineLevel_respelledLine (line : Bytes) : lineLevel (respelledLine line) = lineLevel line := by
  have margin : (respelledLine line).takeWhile isMargin =
      List.replicate (tabSize * lineLevel line) space := by
    rw [respelledLine, List.takeWhile_append_of_pos, takeWhile_isMargin_spelled, List.append_nil]
    exact fun byte member => List.eq_of_mem_replicate member ▸ rfl
  rw [lineLevel, margin, List.length_replicate, marginLevel, tabSize]
  omega

def Token.essence (token : Token) : Kind × Option Bytes × Nat :=
  (token.kind, token.text, token.line)

theorem map_essence_onLine {line : Bytes} (oneLine : lineFeed ∉ line) (number : Nat) :
    ((scan line).map (Token.onLine number)).map Token.essence =
      (contents line).map fun content => (content.1, content.2, number) := by
  rw [← map_content_scan oneLine, List.map_map, List.map_map]
  rfl

/-- Spelling lines again changes neither what their tokens are nor their levels, and
nothing else of a line shows in the essence of the tokens. -/
theorem map_essence_tokensOfLines {first again : Bytes} {later : List Bytes}
    (oneLine : ∀ line ∈ first :: later, lineFeed ∉ line) (againLine : lineFeed ∉ again)
    (sameContents : contents again = contents first) (number level : Nat) :
    (tokensOfLines number level (again :: later.map respelledLine)).map Token.essence =
      (tokensOfLines number level (first :: later)).map Token.essence := by
  induction later generalizing first again number level with
  | nil =>
      simp only [List.map_nil, tokensOfLines]
      rw [map_essence_onLine againLine, sameContents,
        map_essence_onLine (oneLine first List.mem_cons_self)]
  | cons next later ih =>
      have nextLine : lineFeed ∉ next :=
        oneLine next (List.mem_cons_of_mem _ List.mem_cons_self)
      have behind := ih (fun line member => oneLine line (List.mem_cons_of_mem _ member))
        (lineFeed_not_mem_respelledLine nextLine) (contents_respelledLine nextLine)
        (number + 1) (lineLevel next)
      simp only [List.map_cons, tokensOfLines, List.map_append, lineLevel_respelledLine] at behind ⊢
      rw [map_essence_onLine againLine, sameContents,
        map_essence_onLine (oneLine first List.mem_cons_self), behind]
      rfl

/-- The tokens of a source are printed as a source, and as a text if it was one.
Scanning that gives tokens of the same kinds, with the same texts and on the same
lines, and ends at the same level of indentation. -/
theorem scan_reprint (source : Bytes) :
    (isUtf8 source = true → isUtf8 (reprint (scan source)) = true) ∧
      (scan (reprint (scan source))).map (fun token => (token.kind, token.text, token.line)) =
        (scan source).map (fun token => (token.kind, token.text, token.line)) ∧
      (Scanner.new (reprint (scan source))).tokenize.indentLevel =
        (Scanner.new source).tokenize.indentLevel := by
  obtain ⟨first, later, lines⟩ := List.exists_cons_of_ne_nil (sourceLines_ne_nil source)
  have printed := sourceLines_reprint lines
  have oneLine : ∀ line ∈ first :: later, lineFeed ∉ line := fun line member =>
    lineFeed_not_mem_of_mem_sourceLines (lines ▸ member)
  have firstLine := oneLine first List.mem_cons_self
  refine ⟨isUtf8_reprint, ?_, ?_⟩
  · have same := map_essence_tokensOfLines oneLine (lineFeed_not_mem_spelled firstLine)
      (contents_spelled firstLine) 0 0
    rw [← printed, ← lines, ← scan_eq_tokensOfLines, ← scan_eq_tokensOfLines] at same
    exact same
  · have level := level_advanceAll_cut lines .start
    have printedLevel := level_advanceAll_cut printed .start
    have sameLevels : (fun (level : Nat) line => lineLevel (respelledLine line)) =
        fun _ line => lineLevel line := by
      simp only [lineLevel_respelledLine]
    rw [List.foldl_map, sameLevels, ← level] at printedLevel
    exact printedLevel

end LayoutLexer
