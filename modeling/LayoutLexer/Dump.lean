import LayoutLexer.Token

/-!
# Dumping tokens

A dump is the printed tokens, each followed by a space, with a line feed after
every newline token.  It can be built as one text, or written token by token to
an output that may fail.  A bounded output, which takes so many bytes and no
more, shows that both ways agree.
-/

namespace LayoutLexer

/-- What a dump holds of one token besides the line feed behind it. -/
def Token.dumped (token : Token) : Bytes :=
  token.render ++ [space]

def dump (tokens : List Token) : Bytes :=
  tokens.flatMap fun token =>
    token.dumped ++ if token.kind = .newline then [lineFeed] else []

def checkedDump (tokens : List Token) : Except TokenFault Bytes :=
  if ∀ token ∈ tokens, token.IsPrintable then .ok (dump tokens) else .error .positionOverflow

/-- An output, with the faults it can answer a write or a flush with. -/
structure Output (m : Type → Type) (Fault : Type) where
  write : Bytes → m (Except Fault Unit)
  flush : m (Except Fault Unit)

/-- Write the dump of a list of tokens piece by piece and flush the output at
the end.  The first fault ends the writing. -/
def writeDump {m : Type → Type} {Fault : Type} [Monad m] (output : Output m Fault) :
    List Token → m (Except Fault Unit)
  | [] => output.flush
  | token :: tokens => do
    match ← output.write token.dumped with
    | .error fault => return .error fault
    | .ok () =>
      if token.kind = .newline then
        match ← output.write [lineFeed] with
        | .error fault => return .error fault
        | .ok () => writeDump output tokens
      else
        writeDump output tokens

/-- What a bounded output holds. -/
structure BoundedBuffer where
  /-- The number of bytes that it still takes. -/
  room : Nat
  written : Bytes
  flushes : Nat
  deriving DecidableEq, Repr

/-- A bounded output has no room left for a byte. -/
inductive BufferFault where
  | full
  deriving DecidableEq, Repr

def BufferFault.message : BufferFault → String
  | full => "writer full"

/-- An output that takes part of a write where it has no room for all of it. -/
def boundedOutput : Output (StateM BoundedBuffer) BufferFault where
  write bytes := fun buffer =>
    let taken := bytes.take buffer.room
    (if bytes.length ≤ buffer.room then .ok () else .error .full,
      { buffer with
        room := buffer.room - taken.length
        written := buffer.written ++ taken })
  flush := fun buffer => (.ok (), { buffer with flushes := buffer.flushes + 1 })

/-- Write the dump of a list of tokens to an empty output with the given room. -/
def writeBounded (room : Nat) (tokens : List Token) :
    Except BufferFault Unit × BoundedBuffer :=
  writeDump boundedOutput tokens { room, written := [], flushes := 0 }

end LayoutLexer
