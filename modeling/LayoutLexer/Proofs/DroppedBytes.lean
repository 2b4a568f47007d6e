import LayoutLexer.Proofs.CharacterBoundary
import LayoutLexer.Proofs.StringsAndComments

/-!
# Dropped bytes

A byte is dropped exactly if it can begin nothing and neither a comment nor a token that a
quote opens has taken it up.  The bytes of a character are dropped together or not at all.
-/

namespace LayoutLexer

/-- A byte that begins nothing: it is outside ASCII, or a control that is no whitespace. -/
def IsForeignByte (byte : UInt8) : Prop :=
  128 ≤ byte ∨ (byte < 32 ∨ byte = 127) ∧ ¬ (9 ≤ byte ∧ byte ≤ 13)

namespace Tile

/-- A foreign byte is in a comment, in a token that a quote opens, or dropped. -/
theorem Leads.isDropped_of_foreign {byte other : UInt8} {rest behind : Bytes} {tile : Tile}
    (leads : Leads byte rest tile) (split : byte :: rest = tile.bytes ++ behind)
    (notHiding : ¬ tile.Hides) (member : other ∈ tile.bytes) (isForeign : IsForeignByte other) :
    tile = .dropped other := by
  have isClass := (class_eq_foreign_iff other).mpr isForeign
  cases leads with
  | lexeme leads =>
      rcases leads.goesToQuote_or_plain split with ⟨tail, rfl, goes⟩ | isPlain
      · exact absurd ⟨byte, goes.opened⟩ notHiding
      · have plain := isPlain.plain other member
        rw [isClass] at plain
        cases plain
  | newline isBreak isNewline =>
      obtain rfl := List.mem_singleton.mp member
      cases isClass
  | comment leads => exact absurd trivial notHiding
  | blank isBlank =>
      obtain rfl := List.mem_singleton.mp member
      rw [isBlank] at isClass
      cases isClass
  | dropped _ =>
      obtain rfl := List.mem_singleton.mp member
      rfl

/-- The offsets of the dropped bytes among tiles, the first of them at the given one. -/
def droppedOffsets (start : Nat) : List Tile → List Nat
  | [] => []
  | tile :: tiles =>
    let later := droppedOffsets (start + tile.bytes.length) tiles
    if tile.isDropped then start :: later else later

theorem droppedOffsets_append (start : Nat) (first second : List Tile) :
    droppedOffsets start (first ++ second) =
      droppedOffsets start first ++ droppedOffsets (start + (bytesOf first).length) second := by
  induction first generalizing start with
  | nil => rfl
  | cons tile first ih =>
      rw [List.cons_append, droppedOffsets, droppedOffsets, ih, bytesOf_cons, List.length_append,
        Nat.add_assoc]
      split <;> rfl

theorem droppedOffsets_eq_nil {tiles : List Tile} (kept : ∀ tile ∈ tiles, tile.isDropped = false)
    (start : Nat) : droppedOffsets start tiles = [] := by
  induction tiles generalizing start with
  | nil => rfl
  | cons tile tiles ih =>
      rw [droppedOffsets, kept tile List.mem_cons_self]
      exact ih (fun other member => kept other (List.mem_cons_of_mem _ member)) _

theorem exists_of_mem_droppedOffsets {start offset : Nat} {tiles : List Tile}
    (member : offset ∈ droppedOffsets start tiles) :
    ∃ before byte after, tiles = before ++ .dropped byte :: after ∧
      offset = start + (bytesOf before).length := by
  induction tiles generalizing start with
  | nil => exact absurd member List.not_mem_nil
  | cons tile tiles ih =>
      have behind (later : offset ∈ droppedOffsets (start + tile.bytes.length) tiles) :
          ∃ before byte after, tile :: tiles = before ++ .dropped byte :: after ∧
            offset = start + (bytesOf before).length := by
        obtain ⟨before, byte, after, rfl, place⟩ := ih later
        refine ⟨tile :: before, byte, after, rfl, ?_⟩
        rw [place, bytesOf_cons, List.length_append, Nat.add_assoc]
      cases tile with
      | dropped byte =>
          rcases List.mem_cons.mp member with rfl | later
          · exact ⟨[], byte, tiles, rfl, rfl⟩
          · exact behind later
      | token _ _ | comment _ | blank _ => exact behind member

theorem bounds_of_mem_droppedOffsets {start offset : Nat} {tiles : List Tile}
    (member : offset ∈ droppedOffsets start tiles) :
    start ≤ offset ∧ offset < start + (bytesOf tiles).length := by
  obtain ⟨before, byte, after, rfl, rfl⟩ := exists_of_mem_droppedOffsets member
  rw [bytesOf_append, bytesOf_cons, List.length_append, List.length_append]
  have positive : 0 < (dropped byte).bytes.length := Nat.one_pos
  omega

theorem mem_droppedOffsets (start : Nat) (before after : List Tile) (byte : UInt8) :
    start + (bytesOf before).length ∈ droppedOffsets start (before ++ .dropped byte :: after) := by
  rw [droppedOffsets_append]
  exact List.mem_append_right _ List.mem_cons_self

theorem pairwise_droppedOffsets (start : Nat) (tiles : List Tile) :
    (droppedOffsets start tiles).Pairwise (· < ·) := by
  induction tiles generalizing start with
  | nil => exact .nil
  | cons tile tiles ih =>
      cases tile with
      | dropped byte =>
          refine .cons (fun offset member => ?_) (ih _)
          exact (bounds_of_mem_droppedOffsets member).1
      | token _ _ | comment _ | blank _ => exact ih _

/-- The bytes that are dropped are the foreign bytes that nothing hides. -/
theorem mem_droppedOffsets_iff (source : Bytes) (offset : Nat) :
    offset ∈ droppedOffsets 0 (tilesFrom .start (cut source)) ↔
      ∃ before tile after byte, tilesFrom .start (cut source) = before ++ tile :: after ∧
        Holds before tile offset byte ∧ IsForeignByte byte ∧ ¬ tile.Hides := by
  constructor
  · intro member
    obtain ⟨before, byte, after, parts, place⟩ := exists_of_mem_droppedOffsets member
    obtain ⟨_, _, -, leads⟩ := leads_of_tilesFrom_eq parts
    have isForeign : IsForeignByte byte := by
      cases leads with
      | dropped isClass => exact (class_eq_foreign_iff byte).mp isClass
    exact ⟨before, .dropped byte, after, byte, parts, ⟨0, by omega, rfl⟩, isForeign, id⟩
  · rintro ⟨before, tile, after, byte, parts, ⟨index, place, isByte⟩, isForeign, notHiding⟩
    obtain ⟨_, _, split, leads⟩ := leads_of_tilesFrom_eq parts
    obtain rfl := leads.isDropped_of_foreign split notHiding (List.mem_of_getElem? isByte) isForeign
    have bound : index < 1 := (List.getElem?_eq_some_iff.mp isByte).1
    have here := mem_droppedOffsets 0 before after byte
    rw [parts]
    obtain rfl : index = 0 := Nat.lt_one_iff.mp bound
    rwa [Nat.zero_add, ← Nat.add_zero (bytesOf before).length, place] at here

end Tile

/-! ## Characters -/

theorem tilesFrom_append (cursor : Cursor) (first second : List Piece) :
    tilesFrom cursor (first ++ second) =
      tilesFrom cursor first ++ tilesFrom (cursor.advanceAll first) second := by
  induction first generalizing cursor with
  | nil => rfl
  | cons piece first ih =>
      rw [List.cons_append, tilesFrom_cons, tilesFrom_cons, ih, List.append_assoc,
        Cursor.advanceAll_cons]

theorem bytesOf_tilesFrom_pieces (cursor : Cursor) (pieces : List Piece) :
    Tile.bytesOf (tilesFrom cursor pieces) = pieces.flatMap Piece.bytes := by
  induction pieces generalizing cursor with
  | nil => rfl
  | cons piece pieces ih =>
      rw [tilesFrom_cons, Tile.bytesOf_append, PlacedPiece.bytesOf_tiles, ih, List.flatMap_cons]

theorem PlacedPiece.isDropped_of_mem_tiles {placed : PlacedPiece} {tile : Tile}
    (kept : placed.piece.isDropped = false) (member : tile ∈ placed.tiles) :
    tile.isDropped = false := by
  obtain ⟨cursor, piece⟩ := placed
  cases piece with
  | lineBreak margin =>
      rcases List.mem_cons.mp member with rfl | isBlank
      · rfl
      · obtain ⟨other, -, rfl⟩ := List.mem_map.mp isBlank
        rfl
  | dropped byte => cases kept
  | lexeme _ _ _ | comment _ | blank _ =>
      rw [List.mem_singleton.mp member]
      rfl

/-- The bytes of a character are all dropped, or none of them is. -/
theorem dropped_together (earlier later : List Char) (char : Char) :
    (∀ index, index < (String.utf8EncodeChar char).length →
      (encoded earlier).length + index ∈ Tile.droppedOffsets 0
        (tilesFrom .start (cut (encoded (earlier ++ char :: later))))) ∨
    (∀ index, index < (String.utf8EncodeChar char).length →
      (encoded earlier).length + index ∉ Tile.droppedOffsets 0
        (tilesFrom .start (cut (encoded (earlier ++ char :: later))))) := by
  rcases takesWholeCharacter_cut (Eq.refl (earlier ++ char :: later)) with
    ⟨front, piece, back, left, right, parts, kept, bytes, place⟩ | ⟨front, back, parts, place⟩
  · refine .inr fun index inside member => ?_
    rw [parts, tilesFrom_append, Tile.droppedOffsets_append, tilesFrom_cons,
      Tile.droppedOffsets_append,
      Tile.droppedOffsets_eq_nil fun _ => PlacedPiece.isDropped_of_mem_tiles kept,
      List.nil_append, bytesOf_tilesFrom_pieces, PlacedPiece.bytesOf_tiles, bytes] at member
    have offset := congrArg List.length place
    rw [List.length_append] at offset
    rcases List.mem_append.mp member with before | behind
    · have bound := (Tile.bounds_of_mem_droppedOffsets before).2
      rw [bytesOf_tilesFrom_pieces] at bound
      omega
    · have bound := (Tile.bounds_of_mem_droppedOffsets behind).1
      simp only [List.length_append] at bound
      omega
  · refine .inl fun index inside => ?_
    -- The pieces up to the byte at the index, that byte, and the pieces behind it.
    have split := List.take_append_drop index (String.utf8EncodeChar char)
    rw [List.drop_eq_getElem_cons inside] at split
    rw [← split, List.map_append, List.map_cons, List.append_assoc, ← List.append_assoc] at parts
    have here := Tile.mem_droppedOffsets 0
      (tilesFrom .start (front ++ ((String.utf8EncodeChar char).take index).map .dropped))
    rw [bytesOf_tilesFrom_pieces, List.flatMap_append, flatMap_bytes_map_dropped, place,
      List.length_append, List.length_take_of_le (Nat.le_of_lt inside), Nat.zero_add] at here
    rw [parts, tilesFrom_append, List.cons_append, tilesFrom_cons]
    exact here _ _

end LayoutLexer
