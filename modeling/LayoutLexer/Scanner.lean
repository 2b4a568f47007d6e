import LayoutLexer.Dump
import LayoutLexer.Scan

/-!
# Scanners as objects

A scanner holds a source, the place it has come to and the tokens found so far.
Tokenizing goes on from that place to the end of the source.  A bench holds
scanners in numbered slots, which are called one at a time; every call answers
and leaves a bench, and only the slots that it names are touched.
-/

namespace LayoutLexer

/-- The state of scanning one source. -/
structure Scanner where
  source : Bytes
  cursor : Cursor
  tokens : List Token
  deriving DecidableEq, Repr

namespace Scanner

def new (source : Bytes) : Scanner where
  source
  cursor := .start
  tokens := []

/-- Scan the rest of the source. -/
def tokenize (scanner : Scanner) : Scanner :=
  let pieces := cut (scanner.source.drop scanner.cursor.offset)
  { scanner with
    cursor := scanner.cursor.advanceAll pieces
    tokens := scanner.tokens ++ (place scanner.cursor pieces).flatMap PlacedPiece.tokens }

def indentLevel (scanner : Scanner) : Nat :=
  scanner.cursor.level

end Scanner

/-- Scanners in numbered slots, any of which may be empty. -/
def Bench : Type := Nat → Option Scanner

/-- A call to the scanner in a slot. -/
inductive Call where
  | new (slot : Nat) (source : Bytes)
  | tokenize (slot : Nat)
  | tokens (slot : Nat)
  | indentLevel (slot : Nat)
  | dump (slot : Nat)
  | intoTokens (slot : Nat)
  | clone (slot target : Nat)
  deriving DecidableEq, Repr

inductive Answer where
  | done
  | progress (tokenCount level : Nat)
  | tokens (tokens : List Token)
  | indentLevel (level : Nat)
  | dump (text : Bytes)
  | emptySlot
  deriving DecidableEq, Repr

def Call.slot : Call → Nat
  | new slot _ | tokenize slot | tokens slot | indentLevel slot | dump slot
  | intoTokens slot | clone slot _ => slot

namespace Bench

def empty : Bench := fun _ => none

/-- Put something else into a slot. -/
def set (bench : Bench) (slot : Nat) (content : Option Scanner) : Bench :=
  fun other => if other = slot then content else bench other

@[simp]
theorem set_same (bench : Bench) (slot : Nat) (content : Option Scanner) :
    bench.set slot content slot = content := by
  simp [set]

theorem set_of_ne (bench : Bench) {slot other : Nat} (different : other ≠ slot)
    (content : Option Scanner) : bench.set slot content other = bench other := by
  simp [set, different]

/-- Make a call.  A new scanner needs no scanner before it; every other call to
an empty slot says so and does nothing. -/
def call (bench : Bench) (request : Call) : Answer × Bench :=
  match request, bench request.slot with
  | .new slot source, _ => (.done, bench.set slot (some (.new source)))
  | _, none => (.emptySlot, bench)
  | .tokenize slot, some scanner =>
    let scanned := scanner.tokenize
    (.progress scanned.tokens.length scanned.indentLevel, bench.set slot (some scanned))
  | .tokens _, some scanner => (.tokens scanner.tokens, bench)
  | .indentLevel _, some scanner => (.indentLevel scanner.indentLevel, bench)
  | .dump _, some scanner => (.dump (LayoutLexer.dump scanner.tokens), bench)
  | .intoTokens slot, some scanner => (.tokens scanner.tokens, bench.set slot none)
  | .clone _ target, some scanner => (.done, bench.set target (some scanner))

/-- Make calls one after the other. -/
def callAll (bench : Bench) : List Call → List Answer × Bench
  | [] => ([], bench)
  | request :: requests =>
    let (answer, after) := bench.call request
    let (answers, final) := after.callAll requests
    (answer :: answers, final)

end Bench

end LayoutLexer
