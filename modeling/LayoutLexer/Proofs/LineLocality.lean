import LayoutLexer.Proofs.LineTokens

/-!
# Lines are scanned on their own

But for the marks of layout, the tokens of a source on one of its lines are
those of that line scanned alone, and a newline token behind them.  No string,
comment, number or run of punctuation reaches into another line, so a change to
one line leaves the tokens of every other line as they are.
-/

namespace LayoutLexer

/-- The tokens of a source on one of its lines, the marks of layout apart. -/
def lineTokens (source : Bytes) (number : Nat) : List Token :=
  (scan source).filter fun token => !token.isMark && token.line == number

/-- What one of several lines gives, the first of which has the given number: its
own tokens, and a newline token if there is a line behind it. -/
def ownTokens (base : Nat) (lines : List Bytes) (index : Nat) : List Token :=
  match lines[index]? with
  | none => []
  | some line =>
    (scan line).map (Token.onLine (base + index)) ++
      if index + 1 < lines.length then [newlineToken (base + index) (lineWidth line)] else []

theorem line_of_mem_ownTokens {base index : Nat} {lines : List Bytes} {token : Token}
    (member : token ∈ ownTokens base lines index) : token.line = base + index := by
  unfold ownTokens at member
  split at member
  · exact absurd member List.not_mem_nil
  · rw [List.mem_append, List.mem_map] at member
    rcases member with ⟨original, -, rfl⟩ | isBreak
    · rfl
    · split at isBreak
      · rw [List.mem_singleton.mp isBreak]
        rfl
      · exact absurd isBreak List.not_mem_nil

theorem ownTokens_cons_succ (base : Nat) (line : Bytes) (lines : List Bytes) (index : Nat) :
    ownTokens base (line :: lines) (index + 1) = ownTokens (base + 1) lines index := by
  have sameNumber : base + (index + 1) = base + 1 + index := by omega
  simp only [ownTokens, List.getElem?_cons_succ, List.length_cons, Nat.add_lt_add_iff_right,
    sameNumber]

/-- Without the marks of layout the lines follow one another. -/
theorem filter_isMark_tokensOfLines {lines : List Bytes}
    (oneLine : ∀ line ∈ lines, lineFeed ∉ line) (base level : Nat) :
    (tokensOfLines base level lines).filter (fun token => !token.isMark) =
      (List.range lines.length).flatMap (ownTokens base lines) := by
  induction lines generalizing base level with
  | nil => rfl
  | cons line lines ih =>
      have thisLine := oneLine line List.mem_cons_self
      have later : (List.range lines.length).flatMap
          (fun index => ownTokens base (line :: lines) (index + 1)) =
            (List.range lines.length).flatMap (ownTokens (base + 1) lines) := by
        simp only [ownTokens_cons_succ]
      rw [List.length_cons, List.range_succ_eq_map, List.flatMap_cons, List.flatMap_map, later]
      cases lines with
      | nil => simp [tokensOfLines, filter_isMark_map_onLine thisLine, ownTokens]
      | cons next lines =>
          have isBreak : (newlineToken base (lineWidth line)).isMark = false := rfl
          rw [← ih (fun other member => oneLine other (List.mem_cons_of_mem _ member))
            (base + 1) (lineLevel next)]
          simp [tokensOfLines, filter_isMark_map_onLine thisLine, ownTokens,
            filter_isMark_layoutTokens, isBreak]

theorem filter_line_flatMap_ownTokens (lines : List Bytes) (count number : Nat) :
    ((List.range count).flatMap (ownTokens 0 lines)).filter (fun token => token.line == number) =
      if number < count then ownTokens 0 lines number else [] := by
  induction count with
  | zero => rfl
  | succ count ih =>
      have here : (ownTokens 0 lines count).filter (fun token => token.line == number) =
          if count = number then ownTokens 0 lines count else [] := by
        split
        · rename_i same
          rw [List.filter_eq_self]
          intro token member
          simpa [line_of_mem_ownTokens member] using same
        · rename_i different
          rw [List.filter_eq_nil_iff]
          intro token member
          simpa [line_of_mem_ownTokens member] using different
      rw [List.range_succ, List.flatMap_append, List.filter_append, ih, List.flatMap_singleton,
        here]
      rcases Nat.lt_trichotomy number count with less | rfl | greater
      · simp [less, Nat.ne_of_gt less, Nat.lt_succ_of_lt less]
      · simp
      · simp [Nat.not_lt_of_gt greater, Nat.ne_of_lt greater, Nat.not_lt.mpr greater]

theorem lineTokens_eq_ownTokens (source : Bytes) (number : Nat) :
    lineTokens source number = ownTokens 0 (sourceLines source) number := by
  have lines := filter_line_flatMap_ownTokens (sourceLines source)
    (sourceLines source).length number
  rw [← filter_isMark_tokensOfLines (fun _ => lineFeed_not_mem_of_mem_sourceLines) 0 0,
    ← scan_eq_tokensOfLines, List.filter_filter] at lines
  rw [lineTokens]
  simp only [Bool.and_comm] at lines ⊢
  rw [lines]
  split
  · rfl
  · rename_i beyond
    rw [ownTokens, List.getElem?_eq_none (Nat.le_of_not_lt beyond)]

/-- The tokens of a source are those of its lines in order, the marks of layout
apart.  Each line has the tokens of its own scan, moved down, and unless it is
the last a newline token, in the column that counts the bytes of the line which
are not dropped.  A change to one line changes the tokens of no other line. -/
theorem scan_by_lines (source : Bytes) :
    (scan source).filter (fun token => !token.isMark) =
        (List.range (sourceLines source).length).flatMap (lineTokens source) ∧
      (∀ number, lineTokens source number =
        match (sourceLines source)[number]? with
        | none => []
        | some line =>
          (scan line).map (fun token => { token with line := number }) ++
            if number + 1 < (sourceLines source).length then
              [{ kind := .newline
                 text := none
                 line := number
                 startColumn := line.length - droppedCount line
                 endColumn := line.length - droppedCount line + 1 }]
            else []) ∧
      ∀ (changed : Bytes) (number : Nat) (line : Bytes),
        sourceLines changed = (sourceLines source).set number line →
          ∀ other ≠ number, lineTokens changed other = lineTokens source other := by
  refine ⟨?_, fun number => ?_, fun changed number line lines other different => ?_⟩
  · simp only [funext (lineTokens_eq_ownTokens source)]
    rw [scan_eq_tokensOfLines,
      filter_isMark_tokensOfLines fun _ => lineFeed_not_mem_of_mem_sourceLines]
  · rw [lineTokens_eq_ownTokens, ownTokens, Nat.zero_add]
    rfl
  · rw [lineTokens_eq_ownTokens, lineTokens_eq_ownTokens, lines, ownTokens, ownTokens,
      List.getElem?_set_ne different.symm, List.length_set]

end LayoutLexer
