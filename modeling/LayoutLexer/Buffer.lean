import LayoutLexer.Dump

/-!
# Buffered outputs

A buffered output holds bytes back and passes them on later, in the order in which
they were written.  A rule settles how many bytes it passes on with each write, and
flushing passes on all of them.  Bytes that cannot be passed on stay in the buffer.
-/

namespace LayoutLexer

/-- How many bytes a buffer passes on, of those that it holds and those that are written
behind them. -/
abbrev ReleaseRule := (held written : Bytes) → Nat

/-- What does not fit into a buffer with the given room pushes out what is there.  A
write that would fill the buffer alone passes through. -/
def releaseBlocks (room : Nat) : ReleaseRule := fun held written =>
  if held.length + written.length ≤ room then 0
  else if written.length < room then held.length
  else held.length + written.length

/-- Lines are passed on as soon as they are complete. -/
def releaseLines (room : Nat) : ReleaseRule := fun held written =>
  let unfinished := (written.reverse.takeWhile fun byte => byte != lineFeed).reverse
  if unfinished.length = written.length then releaseBlocks room held written
  else held.length + (written.length - unfinished.length) + releaseBlocks room [] unfinished

namespace Output

variable {m : Type → Type} {Fault : Type} [Monad m]

/-- Pass on the first bytes of a buffer. -/
def passOn (output : Output m Fault) (count : Nat) : StateT Bytes m (Except Fault Unit) := do
  let held ← get
  if held.take count = [] then
    return .ok ()
  else
    match ← output.write (held.take count) with
    | .error fault => return .error fault
    | .ok () =>
      set (held.drop count)
      return .ok ()

/-- An output with a buffer before it. -/
def buffered (release : ReleaseRule) (output : Output m Fault) :
    Output (StateT Bytes m) Fault where
  write written := do
    let held ← get
    set (held ++ written)
    output.passOn (release held written)
  flush := do
    match ← output.passOn (← get).length with
    | .error fault => return .error fault
    | .ok () => output.flush

end Output

/-- Write the dump of a list of tokens through a buffer.  After a fault the buffer may
still hold bytes.  They are passed on if that is possible, and a further fault is
ignored. -/
def writeDumpBuffered {m : Type → Type} {Fault : Type} [Monad m] (release : ReleaseRule)
    (output : Output m Fault) (tokens : List Token) : m (Except Fault Unit) := do
  let (result, held) ← (writeDump (output.buffered release) tokens).run []
  if held ≠ [] then
    let _ ← output.write held
  return result

end LayoutLexer
