import LayoutLexer.Buffer
import LayoutLexer.Proofs.DumpReading

/-!
# Writing through a buffer

A buffer changes when bytes are written, but not which.  What an output has been passed
and what the buffer still holds are together what has been written, whatever the rule is
by which the buffer passes bytes on, and flushing leaves nothing in the buffer.  So an
output takes as much of a dump as it has room for, and a fault is reported exactly if that
is not all of it.
-/

namespace LayoutLexer

/-! ## Room -/

namespace Room

variable {room : Room} {taken bytes : Bytes}

@[simp]
theorem fits_nil (room : Room) : room.fits [] = true := by
  cases room <;> simp [fits]

theorem fits_of_append (fitting : room.fits (taken ++ bytes) = true) :
    room.fits taken = true := by
  cases room with
  | limited count =>
      simp only [fits, List.length_append, decide_eq_true_eq] at fitting ⊢
      omega
  | unlimited => rfl

theorem part_of_fits (fitting : room.fits bytes = true) : room.part bytes = bytes := by
  cases room with
  | limited count => exact List.take_of_length_le (of_decide_eq_true fitting)
  | unlimited => rfl

theorem fits_part (room : Room) (bytes : Bytes) : room.fits (room.part bytes) = true := by
  cases room with
  | limited count => exact decide_eq_true (List.length_take_le count bytes)
  | unlimited => rfl

/-- What comes behind bytes that do not fit is not taken. -/
theorem part_append_of_not_fits (tooLong : room.fits bytes ≠ true) (more : Bytes) :
    room.part (bytes ++ more) = room.part bytes := by
  cases room with
  | limited count =>
      have longer : count < bytes.length := by simpa [fits] using tooLong
      exact List.take_append_of_le_length (Nat.le_of_lt longer)
  | unlimited => exact absurd rfl tooLong

theorem part_part_append (tooLong : room.fits bytes ≠ true) (more : Bytes) :
    room.part (room.part bytes ++ more) = room.part bytes := by
  cases room with
  | limited count =>
      have longer : count < bytes.length := by simpa [fits] using tooLong
      exact List.take_left' (List.length_take_of_le (Nat.le_of_lt longer))
  | unlimited => exact absurd rfl tooLong

@[simp]
theorem less_nil (room : Room) : room.less [] = room := by
  cases room <;> rfl

theorem less_append (room : Room) (taken bytes : Bytes) :
    room.less (taken ++ bytes) = (room.less taken).less bytes := by
  cases room with
  | limited count => simp [less, Nat.sub_sub]
  | unlimited => rfl

theorem fits_append (within : room.fits taken = true) (bytes : Bytes) :
    room.fits (taken ++ bytes) = (room.less taken).fits bytes := by
  cases room with
  | limited count =>
      simp only [fits, decide_eq_true_eq] at within
      simp only [fits, less, List.length_append, decide_eq_decide]
      omega
  | unlimited => rfl

theorem part_append (within : room.fits taken = true) (bytes : Bytes) :
    room.part (taken ++ bytes) = taken ++ (room.less taken).part bytes := by
  cases room with
  | limited count =>
      simp only [fits, decide_eq_true_eq] at within
      rw [part, less, part, List.take_append, List.take_of_length_le within]
  | unlimited => rfl

end Room

/-! ## A dump as a sequence of writes -/

/-- What is written of a list of tokens, one write after the other. -/
def dumpWrites (tokens : List Token) : List Bytes :=
  tokens.flatMap fun token =>
    token.dumped :: if token.kind = .newline then [[lineFeed]] else []

theorem dumpWrites_cons (token : Token) (tokens : List Token) :
    dumpWrites (token :: tokens) =
      token.dumped :: ((if token.kind = .newline then [[lineFeed]] else []) ++
        dumpWrites tokens) :=
  rfl

theorem flatten_dumpWrites (tokens : List Token) : (dumpWrites tokens).flatten = dump tokens := by
  induction tokens with
  | nil => rfl
  | cons token tokens ih =>
      have front : dump (token :: tokens) = token.dumped ++
          ((if token.kind = .newline then [lineFeed] else []) ++ dump tokens) :=
        List.append_assoc _ _ _
      rw [dumpWrites_cons, List.flatten_cons, List.flatten_append, ih, front]
      split <;> rfl

/-- Write texts one after the other and flush the output at the end. -/
def writeAll {m : Type → Type} {Fault : Type} [Monad m] (output : Output m Fault) :
    List Bytes → m (Except Fault Unit)
  | [] => output.flush
  | bytes :: more => do
    match ← output.write bytes with
    | .error fault => return .error fault
    | .ok () => writeAll output more

theorem writeDump_eq_writeAll {m : Type → Type} {Fault : Type} [Monad m]
    (output : Output m Fault) (tokens : List Token) :
    writeDump output tokens = writeAll output (dumpWrites tokens) := by
  induction tokens with
  | nil => rfl
  | cons token tokens ih =>
      rw [writeDump, dumpWrites_cons, writeAll]
      congr 1
      funext first
      rcases first with _ | _
      · rfl
      · dsimp only
        split
        · rw [List.singleton_append, writeAll]
          congr 1
          funext second
          rcases second with _ | _
          · rfl
          · exact ih
        · rw [List.nil_append, ih]

theorem run_bind {σ α β : Type} (action : StateM σ α) (goOn : α → StateM σ β) (now : σ) :
    (action >>= goOn) now =
      match action now with
      | (value, next) => goOn value next :=
  rfl

variable {σ Fault : Type}

namespace Output

/-- An output that takes as much as it has room for, and then answers with a fault.  It is
a device with a state for all that it has taken so far. -/
structure HasRoom (output : Output (StateM σ) Fault) (room : Room) (fault : Fault)
    (state : Bytes → σ) : Prop where
  write_eq : ∀ taken bytes, room.fits taken = true →
    output.write bytes (state taken) =
      (if room.fits (taken ++ bytes) then .ok () else .error fault,
        state (room.part (taken ++ bytes)))
  flush_eq : ∀ taken, output.flush (state taken) = (.ok (), state taken)

variable {output : Output (StateM σ) Fault} {release : ReleaseRule}

/-! ## What the actions of a buffer do -/

@[simp]
theorem buffered_bind {α β : Type} (action : StateT Bytes (StateM σ) α)
    (goOn : α → StateT Bytes (StateM σ) β) (held : Bytes) (now : σ) :
    (action >>= goOn) held now =
      match action held now with
      | ((value, kept), next) => goOn value kept next :=
  rfl

@[simp]
theorem buffered_get (held : Bytes) (now : σ) :
    (get : StateT Bytes (StateM σ) Bytes) held now = ((held, held), now) :=
  rfl

@[simp]
theorem buffered_liftM {α : Type} (action : StateM σ α) (held : Bytes) (now : σ) :
    (liftM action : StateT Bytes (StateM σ) α) held now =
      match action now with
      | (value, next) => ((value, held), next) :=
  rfl

theorem passOn_eq (output : Output (StateM σ) Fault) (count : Nat) (held : Bytes) (now : σ) :
    output.passOn count held now =
      if held.take count = [] then ((.ok (), held), now)
      else match output.write (held.take count) now with
        | (.ok (), next) => ((.ok (), held.drop count), next)
        | (.error fault, next) => ((.error fault, held), next) := by
  simp only [passOn, buffered_bind, buffered_get]
  split
  · rfl
  · simp only [buffered_bind, buffered_liftM]
    rcases output.write (held.take count) now with ⟨⟨⟩ | ⟨⟩, next⟩ <;> rfl

theorem buffered_write_eq (written held : Bytes) (now : σ) :
    (output.buffered release).write written held now =
      output.passOn (release held written) (held ++ written) now :=
  rfl

theorem buffered_flush_eq (held : Bytes) (now : σ) :
    (output.buffered release).flush held now =
      match output.passOn held.length held now with
      | ((.ok (), kept), next) =>
        match output.flush next with
        | (result, last) => ((result, kept), last)
      | ((.error fault, kept), next) => ((.error fault, kept), next) := by
  simp only [buffered, buffered_bind, buffered_get]
  rcases output.passOn held.length held now with ⟨⟨⟨⟩ | ⟨⟩, kept⟩, next⟩ <;> rfl

theorem writeAll_cons_eq (output : Output (StateT Bytes (StateM σ)) Fault) (bytes : Bytes)
    (more : List Bytes) (held : Bytes) (now : σ) :
    writeAll output (bytes :: more) held now =
      match output.write bytes held now with
      | ((.ok (), kept), next) => writeAll output more kept next
      | ((.error fault, kept), next) => ((.error fault, kept), next) := by
  simp only [writeAll, buffered_bind]
  rcases output.write bytes held now with ⟨⟨⟨⟩ | ⟨⟩, kept⟩, next⟩ <;> rfl

/-! ## Outputs with room -/

namespace HasRoom

variable {room : Room} {fault : Fault} {state : Bytes → σ} {taken : Bytes}

theorem passOn_eq (hasRoom : output.HasRoom room fault state) (within : room.fits taken = true)
    (count : Nat) (held : Bytes) :
    output.passOn count held (state taken) =
      if room.fits (taken ++ held.take count) then
        ((.ok (), held.drop count), state (taken ++ held.take count))
      else ((.error fault, held), state (room.part (taken ++ held.take count))) := by
  rw [Output.passOn_eq]
  split
  · rename_i nothing
    have parts := List.take_append_drop count held
    rw [nothing, List.nil_append] at parts
    rw [nothing, parts, List.append_nil, if_pos within]
  · rw [hasRoom.write_eq taken _ within]
    by_cases fitting : room.fits (taken ++ held.take count) = true
    · rw [if_pos fitting, if_pos fitting, Room.part_of_fits fitting]
    · rw [if_neg fitting, if_neg fitting]

theorem flush_buffered (hasRoom : output.HasRoom room fault state)
    (within : room.fits taken = true) (held : Bytes) :
    (output.buffered release).flush held (state taken) =
      if room.fits (taken ++ held) then ((.ok (), []), state (taken ++ held))
      else ((.error fault, held), state (room.part (taken ++ held))) := by
  rw [buffered_flush_eq, hasRoom.passOn_eq within, List.take_length, List.drop_length]
  by_cases fitting : room.fits (taken ++ held) = true
  · rw [if_pos fitting]
    dsimp only
    rw [hasRoom.flush_eq]
  · rw [if_neg fitting]

/-- What the buffer held before goes out before what is written.  The buffer may hold a text
back that there is no room for, but then the fault comes at the end at the latest. -/
theorem writeAll_buffered (hasRoom : output.HasRoom room fault state)
    (release : ReleaseRule) (within : room.fits taken = true) (texts : List Bytes)
    (held : Bytes) :
    ∃ kept,
      writeAll (output.buffered release) texts held (state taken) =
        ((if room.fits (taken ++ (held ++ texts.flatten)) then .ok () else .error fault, kept),
          state (room.part (taken ++ (held ++ texts.flatten)))) ∧
      (room.fits (taken ++ (held ++ texts.flatten)) = true → kept = []) := by
  induction texts generalizing held taken with
  | nil =>
      rw [List.flatten_nil, List.append_nil, writeAll, hasRoom.flush_buffered within]
      by_cases fitting : room.fits (taken ++ held) = true
      · rw [if_pos fitting, if_pos fitting, Room.part_of_fits fitting]
        exact ⟨[], rfl, fun _ => rfl⟩
      · rw [if_neg fitting, if_neg fitting]
        exact ⟨held, rfl, fun fits => absurd fits fitting⟩
  | cons bytes more ih =>
      have parts : taken ++ (held ++ (bytes :: more).flatten) =
          taken ++ (held ++ bytes).take (release held bytes) ++
            ((held ++ bytes).drop (release held bytes) ++ more.flatten) := by
        rw [List.append_assoc taken, ← List.append_assoc _ _ more.flatten,
          List.take_append_drop, List.flatten_cons, List.append_assoc held]
      rw [parts, writeAll_cons_eq, buffered_write_eq, hasRoom.passOn_eq within]
      by_cases fitting :
          room.fits (taken ++ (held ++ bytes).take (release held bytes)) = true
      · rw [if_pos fitting]
        exact ih fitting _
      · have tooLong : room.fits (taken ++ (held ++ bytes).take (release held bytes) ++
            ((held ++ bytes).drop (release held bytes) ++ more.flatten)) ≠ true :=
          fun fits => fitting (Room.fits_of_append fits)
        rw [if_neg fitting, if_neg tooLong, Room.part_append_of_not_fits fitting]
        exact ⟨_, rfl, fun fits => absurd fits tooLong⟩

end HasRoom

end Output

/-! ## A dump through a buffer -/

theorem writeDumpBuffered_eq (release : ReleaseRule) (output : Output (StateM σ) Fault)
    (tokens : List Token) (now : σ) :
    writeDumpBuffered release output tokens now =
      match writeAll (output.buffered release) (dumpWrites tokens) [] now with
      | ((result, held), next) =>
        (result, if held = [] then next else (output.write held next).2) := by
  rw [← writeDump_eq_writeAll, writeDumpBuffered, run_bind, StateT.run]
  rcases writeDump (output.buffered release) tokens [] now with ⟨⟨result, held⟩, next⟩
  cases held with
  | nil => rfl
  | cons byte held => rfl

variable {output : Output (StateM σ) Fault}

/-- By whatever rule the buffer passes bytes on, the output ends up with as much of the dump
as there is room for, and no fault is hidden or reported without need. -/
theorem Output.HasRoom.writeDumpBuffered_eq {room : Room} {fault : Fault} {state : Bytes → σ}
    (hasRoom : output.HasRoom room fault state) (release : ReleaseRule) (tokens : List Token) :
    writeDumpBuffered release output tokens (state []) =
      (if room.fits (dump tokens) then .ok () else .error fault,
        state (room.part (dump tokens))) := by
  obtain ⟨kept, written, isEmpty⟩ :=
    hasRoom.writeAll_buffered release (Room.fits_nil room) (dumpWrites tokens) []
  rw [List.nil_append, List.nil_append, flatten_dumpWrites] at written isEmpty
  rw [LayoutLexer.writeDumpBuffered_eq, written]
  by_cases fitting : room.fits (dump tokens) = true
  · simp only [isEmpty fitting, if_true]
  · -- The last attempt to write what the buffer holds finds no room either.
    have still : (output.write kept (state (room.part (dump tokens)))).2 =
        state (room.part (dump tokens)) := by
      rw [hasRoom.write_eq _ _ (Room.fits_part room _), Room.part_part_append fitting]
    simp only [still, ite_self]

end LayoutLexer
