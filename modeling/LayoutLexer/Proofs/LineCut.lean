import LayoutLexer.Scan
import LayoutLexer.Diagnostic
import LayoutLexer.Proofs.FirstPiece

/-!
# Cutting a source line by line

The cut of a source falls apart at every line feed: the pieces of the line
before it, a line break, and the pieces behind the margin of the next line.  The
margin is one part of the line break there, while it is a row of single blanks
when the next line stands alone.  Both ways come to the same place, so the scan
behind a line break goes on as if it began at column zero of the next line.
-/

namespace LayoutLexer

/-- Every source is a last line, or a line with a line feed and a shorter source
behind it. -/
@[elab_as_elim]
theorem line_induction {motive : Bytes → Prop} (source : Bytes)
    (last : ∀ line, lineFeed ∉ line → motive line)
    (cons : ∀ line rest, lineFeed ∉ line → motive rest → motive (line ++ lineFeed :: rest)) :
    motive source := by
  induction lengthEq : source.length using Nat.strongRecOn generalizing source with
  | ind length ih =>
      by_cases broken : lineFeed ∈ source
      · obtain ⟨line, rest, rfl, oneLine⟩ := List.eq_append_cons_of_mem broken
        have shorter : rest.length < length := by
          simp only [List.length_append, List.length_cons] at lengthEq
          omega
        exact cons line rest oneLine (ih _ shorter rest rfl)
      · exact last source broken

theorem sourceLines_last {line : Bytes} (oneLine : lineFeed ∉ line) :
    sourceLines line = [line] :=
  List.splitOn_eq_singleton oneLine

theorem sourceLines_cons {line : Bytes} (oneLine : lineFeed ∉ line) (rest : Bytes) :
    sourceLines (line ++ lineFeed :: rest) = line :: sourceLines rest :=
  List.splitOn_append_cons_self_of_not_mem oneLine rest

theorem sourceLines_ne_nil (source : Bytes) : sourceLines source ≠ [] :=
  List.splitOn_ne_nil lineFeed source

theorem lineFeed_not_mem_of_mem_sourceLines {source line : Bytes}
    (member : line ∈ sourceLines source) : lineFeed ∉ line := by
  induction source using line_induction with
  | last only oneLine =>
      rw [sourceLines_last oneLine, List.mem_singleton] at member
      exact member ▸ oneLine
  | cons before rest oneLine ih =>
      rw [sourceLines_cons oneLine, List.mem_cons] at member
      rcases member with rfl | later
      · exact oneLine
      · exact ih later

theorem takeWhile_isMargin_of_sourceLines {source line : Bytes} {later : List Bytes}
    (lines : sourceLines source = line :: later) :
    source.takeWhile isMargin = line.takeWhile isMargin := by
  induction source using line_induction with
  | last only oneLine =>
      rw [sourceLines_last oneLine, List.cons.injEq] at lines
      rw [lines.1]
  | cons before rest oneLine ih =>
      rw [sourceLines_cons oneLine, List.cons.injEq] at lines
      rw [takeWhile_append_stop (by decide), lines.1]

/-- The line of a source with the given number. -/
def lineAt (source : Bytes) (number : Nat) : Bytes :=
  (sourceLines source)[number]?.getD []

theorem length_sourceLines (source : Bytes) :
    (sourceLines source).length = source.count lineFeed + 1 := by
  induction source using line_induction with
  | last line oneLine =>
      rw [sourceLines_last oneLine, List.count_eq_zero_of_not_mem oneLine]
      rfl
  | cons line rest oneLine ih =>
      rw [sourceLines_cons oneLine, List.length_cons, ih, List.count_append,
        List.count_eq_zero_of_not_mem oneLine, List.count_cons_self, Nat.zero_add]

theorem sourceLines_eq_map_range (source : Bytes) :
    sourceLines source = (List.range' 0 (source.count lineFeed + 1)).map (lineAt source) := by
  refine List.ext_getElem ?_ fun number bound _ => ?_
  · rw [length_sourceLines, List.length_map, List.length_range']
  · simp [lineAt, List.getElem?_eq_getElem bound]

theorem lineFeed_not_mem_lineAt (source : Bytes) (number : Nat) :
    lineFeed ∉ lineAt source number := by
  rw [lineAt]
  cases isLine : (sourceLines source)[number]? with
  | none => exact List.not_mem_nil
  | some line => exact lineFeed_not_mem_of_mem_sourceLines (List.mem_of_getElem? isLine)

/-! ## The pieces of a line -/

/-- The pieces of a line do not depend on what is behind it. -/
theorem cut_append_lineFeed {line : Bytes} (oneLine : lineFeed ∉ line) (after : Bytes) :
    cut (line ++ lineFeed :: after) = cut line ++ cut (lineFeed :: after) := by
  induction line using cut_induction with
  | nil => simp
  | cons byte rest behind split ih =>
      have notBreak : byte ≠ lineFeed := fun same => oneLine (by simp [same])
      have oneLineBehind : lineFeed ∉ behind := fun member =>
        oneLine (split ▸ List.mem_append_right _ member)
      have splitLonger : byte :: (rest ++ lineFeed :: after) =
          (Piece.first byte (rest ++ lineFeed :: after)).bytes ++
            (behind ++ lineFeed :: after) := by
        rw [Piece.first_append_lineFeed notBreak, ← List.append_assoc, ← split,
          List.cons_append]
      rw [List.cons_append, cut_cons splitLonger, ih oneLineBehind, cut_cons split,
        Piece.first_append_lineFeed notBreak, List.cons_append]

theorem cut_lineFeed_cons (after : Bytes) :
    cut (lineFeed :: after) =
      .lineBreak (after.takeWhile isMargin) :: cut (after.dropWhile isMargin) := by
  have split : lineFeed :: after =
      (Piece.first lineFeed after).bytes ++ after.dropWhile isMargin := by
    rw [Piece.first_lineFeed, Piece.bytes, List.cons_append,
      List.takeWhile_append_dropWhile]
  rw [cut_cons split, Piece.first_lineFeed]

/-- Bytes that are pieces of their own are cut off one at a time. -/
theorem cut_map_append {single : UInt8 → Piece} {bytes : Bytes}
    (singleBytes : ∀ byte, (single byte).bytes = [byte])
    (areSingle : ∀ byte ∈ bytes, ∀ rest, Piece.first byte rest = single byte) (rest : Bytes) :
    cut (bytes ++ rest) = bytes.map single ++ cut rest := by
  induction bytes with
  | nil => rfl
  | cons byte bytes ih =>
      have isSingle := areSingle byte List.mem_cons_self (bytes ++ rest)
      have split : byte :: (bytes ++ rest) =
          (Piece.first byte (bytes ++ rest)).bytes ++ (bytes ++ rest) := by
        rw [isSingle, singleBytes]
        rfl
      rw [List.cons_append, cut_cons split, isSingle,
        ih fun other member => areSingle other (List.mem_cons_of_mem _ member)]
      rfl

theorem cut_blanks_append {blanks : Bytes}
    (areBlank : ∀ byte ∈ blanks, ByteClass.of byte = .blank) (rest : Bytes) :
    cut (blanks ++ rest) = blanks.map .blank ++ cut rest :=
  cut_map_append (fun _ => rfl) (fun byte member => Piece.first_blank (areBlank byte member)) rest

theorem cut_margin (source : Bytes) :
    cut source = (source.takeWhile isMargin).map .blank ++ cut (source.dropWhile isMargin) := by
  have areBlank : ∀ byte ∈ source.takeWhile isMargin, ByteClass.of byte = .blank :=
    fun byte member => class_of_isMargin (accepts_of_mem_takeWhile member)
  rw [← cut_blanks_append areBlank, List.takeWhile_append_dropWhile]

theorem cut_foreign_append {bytes : Bytes}
    (areForeign : ∀ byte ∈ bytes, ByteClass.of byte = .foreign) (rest : Bytes) :
    cut (bytes ++ rest) = bytes.map .dropped ++ cut rest :=
  cut_map_append (fun _ => rfl)
    (fun byte member => Piece.first_foreign (areForeign byte member)) rest

/-- Every piece is the first piece of what is left of the source. -/
theorem eq_first_of_mem_cut {source : Bytes} {piece : Piece} (member : piece ∈ cut source) :
    ∃ byte rest, byte :: rest <:+ source ∧ piece = Piece.first byte rest := by
  induction source using cut_induction with
  | nil => simp at member
  | cons byte rest after split ih =>
      rw [cut_cons split, List.mem_cons] at member
      rcases member with rfl | later
      · exact ⟨byte, rest, List.suffix_refl _, rfl⟩
      · obtain ⟨other, behind, suffix, first⟩ := ih later
        exact ⟨other, behind, suffix.trans ⟨_, split.symm⟩, first⟩

/-- The pieces behind some place are the cut of the bytes behind it, and each piece leads
the bytes that begin there. -/
theorem leads_of_cut_eq_append {source : Bytes} {before after : List Piece} {piece : Piece}
    (parts : cut source = before ++ piece :: after) :
    ∃ byte rest, byte :: rest = piece.bytes ++ after.flatMap Piece.bytes ∧
      Piece.Leads byte rest piece := by
  induction source using cut_induction generalizing before with
  | nil => simp at parts
  | cons byte rest behind split ih =>
      rw [cut_cons split] at parts
      cases before with
      | nil =>
          obtain ⟨rfl, rfl⟩ := List.cons.inj parts
          exact ⟨byte, rest, by rw [flatMap_bytes_cut, ← split], Piece.leads_first byte rest⟩
      | cons first before => exact ih (List.cons.inj parts).2

theorem ne_lineBreak_of_mem_cut {line : Bytes} (oneLine : lineFeed ∉ line) {piece : Piece}
    (member : piece ∈ cut line) (margin : Bytes) : piece ≠ .lineBreak margin := by
  obtain ⟨byte, rest, suffix, rfl⟩ := eq_first_of_mem_cut member
  have notBreak : byte ≠ lineFeed := fun same =>
    oneLine (suffix.subset (same ▸ List.mem_cons_self))
  intro isBreak
  have absent : lineFeed ∉ (Piece.first byte rest).bytes := Piece.lineFeed_not_mem_first notBreak
  rw [isBreak] at absent
  exact absent List.mem_cons_self

end LayoutLexer
