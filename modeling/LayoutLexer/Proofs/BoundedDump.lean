import LayoutLexer.Proofs.BufferedOutput

/-!
# Dumps to an output that takes so many bytes

An output that takes a number of bytes and no more ends up with as many bytes of a dump, counted
from its beginning, wherever that cuts the dump off.  It reports a fault exactly if that is not
the whole dump, and it is flushed exactly if it is.

How the dump is divided into writes does not matter.  Printing makes a write for every fixed part
and every value of a token, and each of these is passed on in as many attempts as it takes, the
last of which may find no room.
-/

namespace LayoutLexer

/-! ## Attempts to write -/

namespace BoundedBuffer

/-- A bounded output with as much more of a text as it has room for. -/
def taking (buffer : BoundedBuffer) (bytes : Bytes) : BoundedBuffer :=
  { buffer with
    room := buffer.room - (bytes.take buffer.room).length
    written := buffer.written ++ bytes.take buffer.room }

/-- One attempt to write.  It takes what there is room for and says how much that was.  Without
any room it fails. -/
def attempt (buffer : BoundedBuffer) (bytes : Bytes) : Except BufferFault Nat × BoundedBuffer :=
  if buffer.room = 0 then (.error .full, buffer)
  else (.ok (bytes.take buffer.room).length, buffer.taking bytes)

theorem length_sub_lt_of_attempt {buffer next : BoundedBuffer} {bytes : Bytes} {count : Nat}
    (notEmpty : bytes ≠ []) (isAttempt : buffer.attempt bytes = (.ok count, next)) :
    bytes.length - count < bytes.length := by
  have positive := List.length_pos_iff.mpr notEmpty
  unfold attempt at isAttempt
  split at isAttempt
  · cases isAttempt
  · rw [Prod.mk.injEq, Except.ok.injEq, List.length_take] at isAttempt
    omega

/-- Attempts to write what is left of a text, until nothing is or one of them fails. -/
def attemptAll (buffer : BoundedBuffer) (bytes : Bytes) : Except BufferFault Unit × BoundedBuffer :=
  if isEmpty : bytes = [] then
    (.ok (), buffer)
  else
    match isAttempt : buffer.attempt bytes with
    | (.error fault, next) => (.error fault, next)
    | (.ok count, next) =>
      have := length_sub_lt_of_attempt isEmpty isAttempt
      next.attemptAll (bytes.drop count)
termination_by bytes.length

variable {buffer : BoundedBuffer} {bytes : Bytes}

theorem attemptAll_nil (buffer : BoundedBuffer) : buffer.attemptAll [] = (.ok (), buffer) := by
  rw [attemptAll, dif_pos rfl]

theorem attemptAll_eq_attempt (notEmpty : bytes ≠ []) :
    buffer.attemptAll bytes =
      match buffer.attempt bytes with
      | (.error fault, next) => (.error fault, next)
      | (.ok count, next) => next.attemptAll (bytes.drop count) := by
  rw [attemptAll, dif_neg notEmpty]
  split
  · rename_i isAttempt
    rw [isAttempt]
  · rename_i isAttempt
    simp only [isAttempt]

theorem attemptAll_of_no_room (noRoom : buffer.room = 0) (notEmpty : bytes ≠ []) :
    buffer.attemptAll bytes = (.error .full, buffer) := by
  rw [attemptAll_eq_attempt notEmpty, attempt, if_pos noRoom]

theorem attemptAll_of_room (hasRoom : buffer.room ≠ 0) (notEmpty : bytes ≠ []) :
    buffer.attemptAll bytes = (buffer.taking bytes).attemptAll (bytes.drop buffer.room) := by
  have behind : bytes.drop (bytes.take buffer.room).length = bytes.drop buffer.room := by
    rw [List.length_take, List.drop_eq_drop_iff]
    omega
  rw [attemptAll_eq_attempt notEmpty, attempt, if_neg hasRoom]
  exact congrArg (buffer.taking bytes).attemptAll behind

theorem write_eq_taking (buffer : BoundedBuffer) (bytes : Bytes) :
    boundedOutput.write bytes buffer =
      (if bytes.length ≤ buffer.room then .ok () else .error .full, buffer.taking bytes) :=
  rfl

theorem taking_of_no_room (noRoom : buffer.room = 0) (bytes : Bytes) :
    buffer.taking bytes = buffer := by
  obtain ⟨room, written, flushes⟩ := buffer
  obtain rfl : room = 0 := noRoom
  simp [taking]

/-- Attempts one after the other come to the same as a single write. -/
theorem attemptAll_eq_write (buffer : BoundedBuffer) (bytes : Bytes) :
    buffer.attemptAll bytes = boundedOutput.write bytes buffer := by
  rw [write_eq_taking]
  by_cases isEmpty : bytes = []
  · subst isEmpty
    simp [attemptAll_nil, taking]
  · have positive := List.length_pos_iff.mpr isEmpty
    by_cases noRoom : buffer.room = 0
    · rw [attemptAll_of_no_room noRoom isEmpty, taking_of_no_room noRoom, if_neg (by omega)]
    · rw [attemptAll_of_room noRoom isEmpty]
      split
      · rename_i fits
        rw [List.drop_of_length_le fits, attemptAll_nil]
      · rename_i tooLong
        -- The first attempt has used up the room.
        have full : (buffer.taking bytes).room = 0 := by
          rw [taking, List.length_take_of_le (by omega)]
          exact Nat.sub_self _
        have left : bytes.drop buffer.room ≠ [] := by
          rw [ne_eq, List.drop_eq_nil_iff]
          omega
        rw [attemptAll_of_no_room full left]

end BoundedBuffer

/-- A bounded output that is written to by attempts. -/
def attemptingOutput : Output (StateM BoundedBuffer) BufferFault where
  write bytes := fun buffer => buffer.attemptAll bytes
  flush := boundedOutput.flush

theorem attemptingOutput_eq : attemptingOutput = boundedOutput := by
  have sameWrite : attemptingOutput.write = boundedOutput.write := by
    funext bytes buffer
    exact buffer.attemptAll_eq_write bytes
  rw [attemptingOutput]
  exact congrArg (fun write => Output.mk write boundedOutput.flush) sameWrite

/-! ## Writes one after the other -/

/-- What a bounded output holds when a text has been written to it and, if there was room for all
of it, the output has been flushed. -/
def BoundedBuffer.after (buffer : BoundedBuffer) (text : Bytes) : BoundedBuffer where
  room := buffer.room - text.length
  written := buffer.written ++ text.take buffer.room
  flushes := buffer.flushes + if text.length ≤ buffer.room then 1 else 0

theorem writeAll_of_fits {bytes : Bytes} {buffer : BoundedBuffer}
    (fits : bytes.length ≤ buffer.room) (more : List Bytes) :
    writeAll boundedOutput (bytes :: more) buffer =
      writeAll boundedOutput more (buffer.taking bytes) := by
  rw [writeAll, run_bind, BoundedBuffer.write_eq_taking, if_pos fits]

theorem writeAll_of_not_fits {bytes : Bytes} {buffer : BoundedBuffer}
    (tooLong : ¬ bytes.length ≤ buffer.room) (more : List Bytes) :
    writeAll boundedOutput (bytes :: more) buffer = (.error .full, buffer.taking bytes) := by
  rw [writeAll, run_bind, BoundedBuffer.write_eq_taking, if_neg tooLong]
  rfl

namespace BoundedBuffer

variable {buffer : BoundedBuffer} {bytes : Bytes}

/-- Taking a text that fits and then another is taking both. -/
theorem after_taking_of_fits (fits : bytes.length ≤ buffer.room) (more : Bytes) :
    (buffer.taking bytes).after more = buffer.after (bytes ++ more) := by
  have left : buffer.room - bytes.length - more.length =
      buffer.room - (bytes.length + more.length) := Nat.sub_sub _ _ _
  have sameTest : more.length ≤ buffer.room - bytes.length ↔
      bytes.length + more.length ≤ buffer.room := by omega
  simp only [after, taking, List.take_of_length_le fits, List.length_append, List.take_append,
    List.append_assoc, left, sameTest]

/-- Behind a text that does not fit nothing more is taken. -/
theorem taking_of_not_fits (tooLong : ¬ bytes.length ≤ buffer.room) (more : Bytes) :
    buffer.taking bytes = buffer.after (bytes ++ more) := by
  have short : buffer.room ≤ bytes.length := by omega
  have noRoom : buffer.room - (bytes.length + more.length) = 0 := by omega
  have notAll : ¬ bytes.length + more.length ≤ buffer.room := by omega
  simp only [after, taking, List.length_take_of_le short, List.length_append, Nat.sub_self,
    noRoom, if_neg notAll, Nat.add_zero, List.take_append_of_le_length short]

end BoundedBuffer

theorem writeAll_boundedOutput (texts : List Bytes) (buffer : BoundedBuffer) :
    writeAll boundedOutput texts buffer =
      (if texts.flatten.length ≤ buffer.room then .ok () else .error .full,
        buffer.after texts.flatten) := by
  induction texts generalizing buffer with
  | nil =>
      rw [writeAll, List.flatten_nil, if_pos (show ([] : Bytes).length ≤ buffer.room by simp)]
      simp [boundedOutput, BoundedBuffer.after]
  | cons bytes more ih =>
      rw [List.flatten_cons]
      by_cases fits : bytes.length ≤ buffer.room
      · have room : (buffer.taking bytes).room = buffer.room - bytes.length := by
          rw [BoundedBuffer.taking, List.take_of_length_le fits]
        have sameTest : more.flatten.length ≤ buffer.room - bytes.length ↔
            (bytes ++ more.flatten).length ≤ buffer.room := by
          rw [List.length_append]
          omega
        rw [writeAll_of_fits fits, ih, BoundedBuffer.after_taking_of_fits fits, room]
        simp only [sameTest]
      · have notAll : ¬ (bytes ++ more.flatten).length ≤ buffer.room := by
          rw [List.length_append]
          omega
        rw [writeAll_of_not_fits fits, BoundedBuffer.taking_of_not_fits fits more.flatten,
          if_neg notAll]

/-! ## The writes of a dump -/

/-- The writes that printing a token makes, one for every fixed part and every value. -/
def Token.writes (token : Token) : List Bytes :=
  [utf8 "(", utf8 token.kind.name] ++
    (match token.text with
      | some text => [utf8 " ", text]
      | none => []) ++
    [utf8 " LINE ", decimal (token.line + 1), utf8 " COL ", decimal (token.startColumn + 1),
      utf8 " TO ", decimal (token.endColumn + 1), utf8 ")", utf8 " "]

def printingWrites (tokens : List Token) : List Bytes :=
  tokens.flatMap fun token =>
    token.writes ++ if token.kind = .newline then [utf8 "\n"] else []

theorem Token.flatten_writes (token : Token) : token.writes.flatten = token.dumped := by
  obtain ⟨kind, text, line, startColumn, endColumn⟩ := token
  have blank : utf8 " " = [space] := rfl
  cases text <;> simp [writes, dumped, render, blank]

theorem flatten_printingWrites (tokens : List Token) :
    (printingWrites tokens).flatten = dump tokens := by
  induction tokens with
  | nil => rfl
  | cons token tokens ih =>
      have here : (token.writes ++ if token.kind = .newline then [utf8 "\n"] else []).flatten =
          token.dumped ++ if token.kind = .newline then [lineFeed] else [] := by
        rw [List.flatten_append, token.flatten_writes]
        split <;> rfl
      rw [printingWrites, List.flatMap_cons, List.flatten_append, here, ← printingWrites, ih]
      rfl

/-- An output that takes so many bytes ends up with as many bytes of a dump, and the result and
the flush tell whether they are all.  It is so for every division of the dump into writes, each of
which is passed on by attempts, and for the division that printing makes. -/
theorem writeBounded_takes_front {tokens : List Token}
    (printable : ∀ token ∈ tokens, token.IsPrintable) (limit : Nat) :
    ∃ text, checkedDump tokens = .ok text ∧
      writeBounded limit tokens =
        (if text.length ≤ limit then .ok () else .error .full,
          { room := limit - text.length
            written := text.take (min limit text.length)
            flushes := if text.length ≤ limit then 1 else 0 }) ∧
      (printingWrites tokens).flatten = text ∧
      ∀ writes : List Bytes, writes.flatten = text →
        writeAll attemptingOutput writes { room := limit, written := [], flushes := 0 } =
          writeBounded limit tokens := by
  have written (writes : List Bytes) (isDump : writes.flatten = dump tokens) :
      writeAll boundedOutput writes { room := limit, written := [], flushes := 0 } =
        (if (dump tokens).length ≤ limit then .ok () else .error .full,
          { room := limit - (dump tokens).length
            written := (dump tokens).take (min limit (dump tokens).length)
            flushes := if (dump tokens).length ≤ limit then 1 else 0 }) := by
    rw [writeAll_boundedOutput, isDump, BoundedBuffer.after, List.nil_append, Nat.zero_add,
      List.take_eq_take_min]
  have bounded := written _ (flatten_dumpWrites tokens)
  rw [← writeDump_eq_writeAll, ← writeBounded] at bounded
  refine ⟨dump tokens, if_pos printable, bounded, flatten_printingWrites tokens, ?_⟩
  intro writes isDump
  rw [attemptingOutput_eq, written writes isDump, bounded]

/-- A token of a kind without a text that has one, cut off inside a character of it.  The line of
the token is the last one that can be printed. -/
theorem writeBounded_takes_front_inside_character :
    let token : Token :=
      { kind := .newline, text := some (utf8 "é)\n"), line := UInt64.size - 2, startColumn := 0,
        endColumn := 4 }
    (∀ other ∈ [token], other.IsPrintable) ∧
    ∃ text, checkedDump [token] = .ok text ∧
      writeBounded 10 [token] =
        (if text.length ≤ 10 then .ok () else .error .full,
          { room := 10 - text.length
            written := text.take (min 10 text.length)
            flushes := if text.length ≤ 10 then 1 else 0 }) ∧
      (printingWrites [token]).flatten = text ∧
      ∀ writes : List Bytes, writes.flatten = text →
        writeAll attemptingOutput writes { room := 10, written := [], flushes := 0 } =
          writeBounded 10 [token] := by
  intro token
  have printable : ∀ other ∈ [token], other.IsPrintable := by
    intro other member
    rw [List.mem_singleton.mp member]
    decide +kernel
  exact ⟨printable, writeBounded_takes_front printable 10⟩

end LayoutLexer
