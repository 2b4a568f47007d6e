import LayoutLexer.Proofs.Indentation

/-!
# Changes of level

A line that is deeper or shallower than the line before changes the level, and nothing else
does.  The changes are listed here with the levels before and after them.  The marks of
layout of a source are those of its changes, so a line has marks exactly if it changes the
level, and then the marks say by how much.
-/

namespace LayoutLexer

/-- A line and the level that it leads away from, with the level that it has itself. -/
structure LevelChange where
  before : Nat
  after : Nat
  line : Nat
  deriving DecidableEq, Repr

namespace LevelChange

def marks (change : LevelChange) : List Token :=
  layoutTokens change.line change.before change.after

theorem line_of_mem_marks {change : LevelChange} {token : Token} (member : token ∈ change.marks) :
    token.line = change.line := by
  simp only [marks, layoutTokens, List.mem_append, List.mem_replicate] at member
  rcases member with ⟨-, rfl⟩ | ⟨-, rfl⟩ <;> rfl

theorem marks_ne_nil {change : LevelChange} (differs : change.before ≠ change.after) :
    change.marks ≠ [] := by
  intro noMarks
  have count := congrArg List.length noMarks
  simp only [marks, layoutTokens, List.length_append, List.length_replicate,
    List.length_nil] at count
  omega

end LevelChange

/-- The marks of layout of a line. -/
def marksOn (tokens : List Token) (line : Nat) : List Token :=
  tokens.filter fun token => token.line = line && token.isMark

/-- The changes of level that pieces bring about, the first of them at the given place. -/
def levelChangesFrom (cursor : Cursor) : List Piece → List LevelChange
  | [] => []
  | piece :: pieces =>
    let next := cursor.advance piece
    let later := levelChangesFrom next pieces
    if next.level = cursor.level then later
    else { before := cursor.level, after := next.level, line := next.line } :: later

theorem levelChangesFrom_unbroken {piece : Piece} (unbroken : ∀ margin, piece ≠ .lineBreak margin)
    (cursor : Cursor) (pieces : List Piece) :
    levelChangesFrom cursor (piece :: pieces) =
      levelChangesFrom (cursor.advance piece) pieces := by
  rw [levelChangesFrom]
  exact if_pos (advance_unbroken unbroken cursor).2.1

theorem chain_levelChangesFrom (cursor : Cursor) (pieces : List Piece) :
    (levelChangesFrom cursor pieces).map LevelChange.before ++
        [(cursor.advanceAll pieces).level] =
      cursor.level :: (levelChangesFrom cursor pieces).map LevelChange.after := by
  induction pieces generalizing cursor with
  | nil => rfl
  | cons piece pieces ih =>
      rw [levelChangesFrom, Cursor.advanceAll_cons]
      split
      · rename_i same
        rw [ih, same]
      · rw [List.map_cons, List.map_cons, List.cons_append, ih]

theorem before_ne_after_of_mem {cursor : Cursor} {pieces : List Piece} {change : LevelChange}
    (member : change ∈ levelChangesFrom cursor pieces) : change.before ≠ change.after := by
  induction pieces generalizing cursor with
  | nil => exact absurd member List.not_mem_nil
  | cons piece pieces ih =>
      rw [levelChangesFrom] at member
      split at member
      · exact ih member
      · rename_i differs
        rcases List.mem_cons.mp member with rfl | later
        · exact Ne.symm differs
        · exact ih later

theorem line_le_advance (cursor : Cursor) (piece : Piece) :
    cursor.line ≤ (cursor.advance piece).line := by
  cases piece with
  | lineBreak margin => exact Nat.le_succ _
  | _ => exact Nat.le_refl _

theorem line_lt_advance {cursor : Cursor} {piece : Piece}
    (differs : (cursor.advance piece).level ≠ cursor.level) :
    cursor.line < (cursor.advance piece).line := by
  cases piece with
  | lineBreak margin => exact Nat.lt_succ_self _
  | _ => exact absurd rfl differs

theorem lt_line_of_mem {cursor : Cursor} {pieces : List Piece} {change : LevelChange}
    (member : change ∈ levelChangesFrom cursor pieces) : cursor.line < change.line := by
  induction pieces generalizing cursor with
  | nil => exact absurd member List.not_mem_nil
  | cons piece pieces ih =>
      rw [levelChangesFrom] at member
      split at member
      · exact Nat.lt_of_le_of_lt (line_le_advance cursor piece) (ih member)
      · rename_i differs
        rcases List.mem_cons.mp member with rfl | later
        · exact line_lt_advance differs
        · exact Nat.lt_of_le_of_lt (line_le_advance cursor piece) (ih later)

theorem pairwise_levelChangesFrom (cursor : Cursor) (pieces : List Piece) :
    (levelChangesFrom cursor pieces).Pairwise fun first second => first.line < second.line := by
  induction pieces generalizing cursor with
  | nil => exact .nil
  | cons piece pieces ih =>
      rw [levelChangesFrom]
      split
      · exact ih _
      · exact .cons (fun _ member => lt_line_of_mem member) (ih _)

theorem PlacedPiece.filter_isMark_tokens {byte : UInt8} {rest : Bytes} {piece : Piece}
    (leads : Piece.Leads byte rest piece) (unbroken : ∀ margin, piece ≠ .lineBreak margin)
    (cursor : Cursor) : (PlacedPiece.tokens { cursor, piece }).filter Token.isMark = [] := by
  cases piece with
  | lexeme kind text bytes =>
      have real := leads.kind_of_lexeme.1
      cases kind with
      | indent | dedent => cases real
      | _ => rfl
  | lineBreak margin => exact absurd rfl (unbroken margin)
  | comment _ | blank _ | dropped _ => rfl

/-- The marks of layout are those of the changes of level, in their order. -/
theorem filter_isMark_tokensFrom (cursor : Cursor) (source : Bytes) :
    (tokensFrom cursor (cut source)).filter Token.isMark =
      (levelChangesFrom cursor (cut source)).flatMap LevelChange.marks := by
  induction source using cut_induction generalizing cursor with
  | nil => rw [cut_nil]; rfl
  | cons byte rest after split ih =>
      rw [cut_cons split, tokensFrom_cons, List.filter_append, ih]
      have leads := Piece.leads_first byte rest
      generalize Piece.first byte rest = piece at leads
      by_cases isBreak : ∃ margin, piece = .lineBreak margin
      · obtain ⟨margin, rfl⟩ := isBreak
        have here : (PlacedPiece.tokens { cursor, piece := .lineBreak margin }).filter
            Token.isMark =
            layoutTokens (cursor.line + 1) cursor.level
              (cursor.advance (.lineBreak margin)).level := by
          rw [PlacedPiece.tokens]
          simp [layoutTokens, Token.isMark, PlacedPiece.next, Cursor.advance]
        rw [here, levelChangesFrom]
        split
        · rename_i same
          rw [same, layoutTokens_eq_append, Nat.sub_self]
          rfl
        · rfl
      · have unbroken := not_exists.mp isBreak
        rw [levelChangesFrom_unbroken unbroken, PlacedPiece.filter_isMark_tokens leads unbroken,
          List.nil_append]

theorem marksOn_scan (source : Bytes) (line : Nat) :
    marksOn (scan source) line =
      (levelChangesFrom .start (cut source)).flatMap fun change =>
        if change.line = line then change.marks else [] := by
  rw [marksOn, ← List.filter_filter, scan_eq_tokensFrom, filter_isMark_tokensFrom,
    List.filter_flatMap]
  congr 1
  funext change
  split
  · rename_i here
    exact List.filter_eq_self.mpr fun token member =>
      decide_eq_true ((LevelChange.line_of_mem_marks member).trans here)
  · rename_i elsewhere
    exact List.filter_eq_nil_iff.mpr fun token member isHere =>
      elsewhere ((LevelChange.line_of_mem_marks member).symm.trans (of_decide_eq_true isHere))

/-- The marks of a line whose level changes are those of the change. -/
theorem marksOn_line {source : Bytes} {change : LevelChange}
    (member : change ∈ levelChangesFrom .start (cut source)) :
    marksOn (scan source) change.line = change.marks := by
  obtain ⟨earlier, later, parts⟩ := List.append_of_mem member
  have ordered := pairwise_levelChangesFrom .start (cut source)
  rw [parts, List.pairwise_append, List.pairwise_cons] at ordered
  obtain ⟨-, ⟨isFirst, -⟩, isLast⟩ := ordered
  have noneBefore : (earlier.flatMap fun other =>
      if other.line = change.line then other.marks else []) = [] := by
    refine List.flatMap_eq_nil_iff.mpr fun other isEarlier => if_neg ?_
    exact Nat.ne_of_lt (isLast other isEarlier change List.mem_cons_self)
  have noneBehind : (later.flatMap fun other =>
      if other.line = change.line then other.marks else []) = [] :=
    List.flatMap_eq_nil_iff.mpr fun other isLater => if_neg (Nat.ne_of_gt (isFirst other isLater))
  rw [marksOn_scan, parts, List.flatMap_append, List.flatMap_cons, noneBefore, noneBehind,
    if_pos rfl, List.nil_append, List.append_nil]

theorem exists_change_iff (source : Bytes) (line : Nat) :
    (∃ change ∈ levelChangesFrom .start (cut source), change.line = line) ↔
      marksOn (scan source) line ≠ [] := by
  constructor
  · rintro ⟨change, member, rfl⟩
    rw [marksOn_line member]
    exact LevelChange.marks_ne_nil (before_ne_after_of_mem member)
  · intro hasMarks
    refine Classical.byContradiction fun noChange => hasMarks ?_
    rw [marksOn_scan, List.flatMap_eq_nil_iff]
    exact fun change member => if_neg fun isHere => noChange ⟨change, member, isHere⟩

/-- What changes of level have to be for them to tell what the marks of layout tell.  There
is one for each line with marks, in the order of the lines, it changes the level by what the
marks of the line say, and it goes on from where the one before it has led. -/
structure FollowMarks (tokens : List Token) (lastLevel : Nat) (changes : List LevelChange) :
    Prop where
  ordered : changes.Pairwise fun first second => first.line < second.line
  line_iff : ∀ line, (∃ change ∈ changes, change.line = line) ↔ marksOn tokens line ≠ []
  balance : ∀ change ∈ changes,
    change.before + indents (marksOn tokens change.line) =
      change.after + dedents (marksOn tokens change.line)
  chain : changes.map LevelChange.before ++ [lastLevel] = 0 :: changes.map LevelChange.after

theorem followMarks_levelChangesFrom (source : Bytes) :
    FollowMarks (scan source) (Scanner.new source).tokenize.indentLevel
      (levelChangesFrom .start (cut source)) where
  ordered := pairwise_levelChangesFrom .start (cut source)
  line_iff := exists_change_iff source
  balance := fun change member => by
    rw [marksOn_line member]
    exact (LeadsBetween.layoutTokens change.line change.before change.after).level_eq
  chain := chain_levelChangesFrom .start (cut source)

end LayoutLexer
