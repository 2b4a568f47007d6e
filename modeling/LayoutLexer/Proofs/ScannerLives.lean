import LayoutLexer.Scanner
import LayoutLexer.Proofs.LineTokens

/-!
# What scanners have been through

A scanner shows the tokens of its source once it has been tokenized, and nothing before.  A
clone takes over what the scanner has been through that it is a clone of, so it does not
matter whether a scanner is tokenized before or after it is cloned.  All this rests on a scanner
having come to the end of its source when it is tokenized: there is nothing left for the
next time.

The calls that a scanner has been through are listed here from the calls made so far alone.
The scanners on the bench follow from these lists, and so does every answer.
-/

namespace LayoutLexer

/-! ## Tokenizing twice -/

namespace Scanner

theorem offset_tokenize (source : Bytes) :
    (new source).tokenize.cursor.offset = source.length := by
  change (Cursor.start.advanceAll (cut source)).offset = source.length
  rw [Cursor.offset_advanceAll, flatMap_bytes_cut]
  exact Nat.zero_add _

theorem tokens_tokenize (source : Bytes) : (new source).tokenize.tokens = scan source :=
  rfl

/-- Nothing is left of the source when it has been tokenized. -/
theorem tokenize_tokenize (source : Bytes) :
    (new source).tokenize.tokenize = (new source).tokenize := by
  have nothing : (new source).tokenize.source.drop (new source).tokenize.cursor.offset = [] := by
    rw [offset_tokenize]
    exact List.drop_length
  generalize (new source).tokenize = scanner at nothing ⊢
  rw [tokenize, nothing, cut_nil, place_nil, List.flatMap_nil, List.append_nil]
  rfl

end Scanner

/-! ## The life of a scanner -/

def Call.isTokenize : Call → Bool
  | tokenize _ => true
  | new .. | tokens _ | indentLevel _ | dump _ | intoTokens _ | clone .. => false

/-- What a scanner has been through: the source that it was made for and the calls made to
it.  Those made to the scanner that it is a clone of, up to the cloning, are among them. -/
structure Life where
  source : Bytes
  calls : List Call
  deriving DecidableEq, Repr

namespace Life

def goOn (life : Life) (request : Call) : Life :=
  { life with calls := life.calls ++ [request] }

def isTokenized (life : Life) : Bool :=
  life.calls.any Call.isTokenize

/-- The scanner that a life makes. -/
def scanner (life : Life) : Scanner :=
  if life.isTokenized then (Scanner.new life.source).tokenize else .new life.source

end Life

/-- What the scanner in each slot has been through, if there is one. -/
def Lives : Type := Nat → Option Life

namespace Lives

def empty : Lives := fun _ => none

def set (lives : Lives) (slot : Nat) (content : Option Life) : Lives :=
  fun other => if other = slot then content else lives other

/-- A call to an empty slot does nothing, unless it makes a scanner.  A clone starts out with
what the scanner has been through that it is a clone of, and replaces what was in its slot. -/
def after (lives : Lives) (request : Call) : Lives :=
  match request, lives request.slot with
  | .new slot source, _ => lives.set slot (some { source, calls := [] })
  | _, none => lives
  | .intoTokens slot, some _ => lives.set slot none
  | .clone slot target, some life =>
    (lives.set slot (some (life.goOn request))).set target (some life)
  | .tokenize slot, some life | .tokens slot, some life | .indentLevel slot, some life
  | .dump slot, some life => lives.set slot (some (life.goOn request))

end Lives

/-- What the scanners on a bench have been through after calls from the beginning. -/
def lives (calls : List Call) : Lives :=
  calls.foldl Lives.after .empty

/-- The bench after calls from the beginning. -/
def benchAfter (calls : List Call) : Bench :=
  (Bench.empty.callAll calls).2

/-- What a request is answered with when it is made after other calls. -/
def Answers (calls : List Call) (request : Call) (answer : Answer) : Prop :=
  (Bench.empty.callAll (calls ++ [request])).1 = (Bench.empty.callAll calls).1 ++ [answer]

/-! ## The bench follows the lives -/

namespace Life

theorem isTokenized_goOn (life : Life) (request : Call) :
    (life.goOn request).isTokenized = (life.isTokenized || request.isTokenize) := by
  simp [isTokenized, goOn]

theorem scanner_goOn {life : Life} {request : Call} (reads : request.isTokenize = false) :
    (life.goOn request).scanner = life.scanner := by
  rw [scanner, isTokenized_goOn, reads, Bool.or_false]
  rfl

theorem scanner_goOn_tokenize (life : Life) (slot : Nat) :
    (life.goOn (.tokenize slot)).scanner = life.scanner.tokenize := by
  have tokenized : (life.goOn (.tokenize slot)).isTokenized = true := by
    rw [isTokenized_goOn]
    exact Bool.or_true _
  rw [scanner, if_pos tokenized, scanner]
  split
  · exact (Scanner.tokenize_tokenize life.source).symm
  · rfl

theorem source_scanner (life : Life) : life.scanner.source = life.source := by
  unfold scanner
  split <;> rfl

theorem tokens_scanner (life : Life) :
    life.scanner.tokens = if life.isTokenized then scan life.source else [] := by
  unfold scanner
  split <;> rfl

theorem indentLevel_scanner (life : Life) :
    life.scanner.indentLevel =
      if life.isTokenized then (Scanner.new life.source).tokenize.indentLevel else 0 := by
  unfold scanner
  split <;> rfl

theorem tokenize_scanner (life : Life) :
    life.scanner.tokenize = (Scanner.new life.source).tokenize := by
  unfold scanner
  split
  · exact Scanner.tokenize_tokenize life.source
  · rfl

end Life

namespace Lives

/-- The bench on which every scanner is the one that its life makes. -/
def bench (lives : Lives) : Bench := fun slot =>
  (lives slot).map Life.scanner

theorem bench_set (lives : Lives) (slot : Nat) (content : Option Life) :
    (lives.set slot content).bench = lives.bench.set slot (content.map Life.scanner) := by
  funext other
  simp only [bench, set, Bench.set]
  split <;> rfl

theorem bench_eq_some {lives : Lives} {slot : Nat} {life : Life}
    (lived : lives slot = some life) : lives.bench slot = some life.scanner := by
  rw [bench, lived]
  rfl

theorem bench_eq_none {lives : Lives} {slot : Nat} (empty : lives slot = none) :
    lives.bench slot = none := by
  rw [bench, empty]
  rfl

/-- Whoever only asks leaves the scanner as it is. -/
theorem bench_set_goOn {lives : Lives} {slot : Nat} {life : Life} {request : Call}
    (lived : lives slot = some life) (reads : request.isTokenize = false) :
    (lives.set slot (some (life.goOn request))).bench = lives.bench := by
  rw [bench_set, Option.map_some, Life.scanner_goOn reads]
  funext other
  by_cases same : other = slot
  · subst same
    rw [Bench.set_same, bench_eq_some lived]
  · exact Bench.set_of_ne lives.bench same _

/-- One call does to the scanners what it adds to their lives. -/
theorem bench_call (lives : Lives) (request : Call) :
    (lives.bench.call request).2 = (lives.after request).bench := by
  cases lived : lives request.slot with
  | none =>
    have empty := bench_eq_none lived
    cases request with
    | new slot source =>
      rw [after, bench_set]
      rfl
    | _ => simp only [Bench.call, after, lived, empty]
  | some life =>
    have held := bench_eq_some lived
    cases request with
    | new slot source =>
      rw [after, bench_set]
      rfl
    | tokenize slot =>
      simp only [Bench.call, after, lived, held, bench_set, Option.map_some,
        Life.scanner_goOn_tokenize]
    | intoTokens slot => simp only [Bench.call, after, lived, held, bench_set, Option.map_none]
    | clone slot target =>
      have unchanged : (lives.set slot (some (life.goOn (.clone slot target)))).bench =
          lives.bench := bench_set_goOn lived rfl
      simp only [Bench.call, after, lived, held]
      rw [bench_set, unchanged, Option.map_some]
    | _ =>
      simp only [Bench.call, after, lived, held]
      exact (bench_set_goOn lived rfl).symm

/-- The bench follows the lives through any calls. -/
theorem bench_callAll (lives : Lives) (calls : List Call) :
    (lives.bench.callAll calls).2 = (calls.foldl after lives).bench := by
  induction calls generalizing lives with
  | nil => rfl
  | cons request calls ih =>
    simp only [Bench.callAll, bench_call]
    exact ih (lives.after request)

end Lives

/-! ## Calls one after the other -/

namespace Bench

theorem callAll_append (bench : Bench) (first second : List Call) :
    bench.callAll (first ++ second) =
      ((bench.callAll first).1 ++ ((bench.callAll first).2.callAll second).1,
        ((bench.callAll first).2.callAll second).2) := by
  induction first generalizing bench with
  | nil => rfl
  | cons request first ih =>
    simp only [List.cons_append, callAll, ih]

end Bench

theorem benchAfter_append (calls later : List Call) :
    benchAfter (calls ++ later) = ((benchAfter calls).callAll later).2 := by
  rw [benchAfter, Bench.callAll_append]
  rfl

theorem answers_iff (calls : List Call) (request : Call) (answer : Answer) :
    Answers calls request answer ↔ ((benchAfter calls).call request).1 = answer := by
  rw [Answers, Bench.callAll_append, List.append_cancel_left_eq, benchAfter, Bench.callAll]
  exact List.singleton_inj

/-- After any calls the scanners are those that their lives make. -/
theorem benchAfter_eq (calls : List Call) : benchAfter calls = (lives calls).bench :=
  Lives.bench_callAll .empty calls

/-! ## What a call leaves alone -/

/-- The slot that a call may change. -/
def Call.changes : Call → Nat
  | new slot _ | tokenize slot | tokens slot | indentLevel slot | dump slot
  | intoTokens slot => slot
  | clone _ target => target

namespace Bench

/-- No call changes what another scanner holds, and to be cloned changes nothing either. -/
theorem call_of_ne (bench : Bench) {request : Call} {other : Nat}
    (elsewhere : other ≠ request.changes) : (bench.call request).2 other = bench other := by
  cases held : bench request.slot with
  | none =>
    cases request with
    | new slot source => exact set_of_ne bench elsewhere _
    | _ => simp only [call, held]
  | some scanner =>
    cases request with
    | new | tokenize | intoTokens | clone =>
      simp only [call, held]
      exact set_of_ne bench elsewhere _
    | tokens | indentLevel | dump => simp only [call, held]

/-- A scanner stays as it is through calls to other scanners. -/
theorem callAll_of_ne (bench : Bench) {calls : List Call} {other : Nat}
    (elsewhere : ∀ request ∈ calls, other ≠ request.changes) :
    (bench.callAll calls).2 other = bench other := by
  induction calls generalizing bench with
  | nil => rfl
  | cons request calls ih =>
    obtain ⟨here, later⟩ := List.forall_mem_cons.mp elsewhere
    calc (bench.callAll (request :: calls)).2 other
      _ = (bench.call request).2 other := ih _ later
      _ = bench other := bench.call_of_ne here

end Bench

/-! ## What a life shows -/

/-- A scanner is there and shows what its life says, whatever it is asked. -/
structure Shows (calls : List Call) (slot : Nat) (life : Life) : Prop where
  source : ∃ scanner, benchAfter calls slot = some scanner ∧ scanner.source = life.source
  tokens : Answers calls (.tokens slot)
    (.tokens (if life.isTokenized then scan life.source else []))
  intoTokens : Answers calls (.intoTokens slot)
    (.tokens (if life.isTokenized then scan life.source else []))
  indentLevel : Answers calls (.indentLevel slot)
    (.indentLevel
      (if life.isTokenized then (Scanner.new life.source).tokenize.indentLevel else 0))
  dump : Answers calls (.dump slot)
    (.dump (LayoutLexer.dump (if life.isTokenized then scan life.source else [])))
  tokenize : Answers calls (.tokenize slot)
    (.progress (scan life.source).length (Scanner.new life.source).tokenize.indentLevel)

theorem shows_of_lives {calls : List Call} {slot : Nat} {life : Life}
    (lived : lives calls slot = some life) : Shows calls slot life := by
  have held : benchAfter calls slot = some life.scanner := by
    rw [benchAfter_eq]
    exact Lives.bench_eq_some lived
  constructor
  case source => exact ⟨life.scanner, held, life.source_scanner⟩
  all_goals
    rw [answers_iff]
    simp only [Bench.call, Call.slot, held, life.tokens_scanner, life.indentLevel_scanner,
      life.tokenize_scanner, Scanner.tokens_tokenize]

/-! ## Tokenizing on a bench -/

namespace Bench

variable {bench : Bench} {slot : Nat} {scanner : Scanner}

theorem call_tokenize (held : bench slot = some scanner) :
    (bench.call (.tokenize slot)).2 = bench.set slot (some scanner.tokenize) := by
  simp only [call, Call.slot, held]

theorem call_clone (held : bench slot = some scanner) (target : Nat) :
    (bench.call (.clone slot target)).2 = bench.set target (some scanner) := by
  simp only [call, Call.slot, held]

theorem set_set (bench : Bench) (slot : Nat) (first second : Option Scanner) :
    (bench.set slot first).set slot second = bench.set slot second := by
  funext other
  simp only [set]
  split <;> rfl

theorem callAll_tokenize_twice
    (once : ∀ scanner, bench slot = some scanner → scanner.tokenize.tokenize = scanner.tokenize) :
    (bench.callAll [.tokenize slot, .tokenize slot]).2 =
      (bench.callAll [.tokenize slot]).2 := by
  cases held : bench slot with
  | none => simp only [callAll, call, Call.slot, held]
  | some scanner =>
    have scanned := bench.set_same slot (some scanner.tokenize)
    simp only [callAll, call_tokenize held, call_tokenize scanned, once scanner held, set_set]

theorem callAll_tokenize_clone (held : bench slot = some scanner) (target : Nat) :
    (bench.callAll [.tokenize slot, .clone slot target]).2 =
      (bench.set slot (some scanner.tokenize)).set target (some scanner.tokenize) := by
  simp only [callAll, call_tokenize held]
  exact call_clone (bench.set_same slot _) target

theorem eq_of_tokenize_clone (held : bench slot = some scanner) (target : Nat) :
    (bench.callAll [.tokenize slot, .clone slot target]).2 target =
      (bench.callAll [.tokenize slot, .clone slot target]).2 slot := by
  rw [callAll_tokenize_clone held, set_same, set]
  split
  · rfl
  · exact (bench.set_same slot _).symm

/-- Cloning and then tokenizing both is tokenizing and then cloning, if the second time that a
scanner is tokenized does nothing. -/
theorem callAll_clone_tokenize (held : bench slot = some scanner)
    (once : scanner.tokenize.tokenize = scanner.tokenize) (target : Nat) :
    (bench.callAll [.clone slot target, .tokenize slot, .tokenize target]).2 =
      (bench.callAll [.tokenize slot, .clone slot target]).2 := by
  let cloned := bench.set target (some scanner)
  have early : (bench.callAll [.clone slot target, .tokenize slot, .tokenize target]).2 =
      ((cloned.call (.tokenize slot)).2.call (.tokenize target)).2 := by
    simp only [callAll, call_clone held]
    rfl
  rw [early, callAll_tokenize_clone held]
  by_cases same : target = slot
  · subst same
    have original : cloned target = some scanner := bench.set_same target _
    rw [call_tokenize original, call_tokenize (cloned.set_same target _), once, set_set, set_set,
      set_set]
  · have original : cloned slot = some scanner := by
      rw [← held]
      exact bench.set_of_ne (Ne.symm same) _
    have clone : cloned.set slot (some scanner.tokenize) target = some scanner := by
      rw [cloned.set_of_ne same]
      exact bench.set_same target _
    rw [call_tokenize original, call_tokenize clone]
    funext other
    simp only [cloned, set]
    split <;> rfl

end Bench

/-! ## Every scanner at all times -/

/-- After any calls every scanner shows what it has been through, and there is one in every
slot where there should be.  To be tokenized again adds nothing.  Whether a scanner is cloned
first or tokenized first, scanners of one source are alike once they are tokenized.  A scanner
stays as it is through all calls that do not change its own slot. -/
theorem scanners_show_their_lives (calls : List Call) :
    (∀ slot,
      match lives calls slot with
      | none => benchAfter calls slot = none
      | some life => Shows calls slot life) ∧
    (∀ slot, benchAfter (calls ++ [.tokenize slot, .tokenize slot]) =
      benchAfter (calls ++ [.tokenize slot])) ∧
    (∀ first second life other, lives calls first = some life → lives calls second = some other →
      life.source = other.source → life.isTokenized → other.isTokenized →
      benchAfter calls first = benchAfter calls second) ∧
    (∀ slot target, benchAfter calls slot ≠ none →
      let early := benchAfter (calls ++ [.clone slot target, .tokenize slot, .tokenize target])
      let late := benchAfter (calls ++ [.tokenize slot, .clone slot target])
      early = late ∧ late target = late slot) ∧
    (∀ later other, (∀ request ∈ later, other ≠ request.changes) →
      benchAfter (calls ++ later) other = benchAfter calls other) := by
  have follows := benchAfter_eq calls
  have once (slot : Nat) (scanner : Scanner) (held : benchAfter calls slot = some scanner) :
      scanner.tokenize.tokenize = scanner.tokenize := by
    rw [follows] at held
    obtain ⟨life, -, rfl⟩ := Option.map_eq_some_iff.mp held
    rw [life.tokenize_scanner, Scanner.tokenize_tokenize]
  refine ⟨fun slot => ?shows, fun slot => ?again, ?alike, fun slot target notEmpty => ?cloned,
    fun later other elsewhere => ?alone⟩
  case shows =>
    cases lived : lives calls slot with
    | none =>
      rw [follows]
      exact Lives.bench_eq_none lived
    | some life => exact shows_of_lives lived
  case again =>
    rw [benchAfter_append, benchAfter_append]
    exact Bench.callAll_tokenize_twice (once slot)
  case alike =>
    intro first second life other lived otherLived sameSource tokenized otherTokenized
    rw [follows, Lives.bench_eq_some lived, Lives.bench_eq_some otherLived, Life.scanner,
      Life.scanner, if_pos tokenized, if_pos otherTokenized, sameSource]
  case cloned =>
    obtain ⟨scanner, held⟩ := Option.ne_none_iff_exists'.mp notEmpty
    simp only [benchAfter_append]
    exact ⟨Bench.callAll_clone_tokenize held (once slot scanner held) target,
      Bench.eq_of_tokenize_clone held target⟩
  case alone =>
    rw [benchAfter_append]
    exact (benchAfter calls).callAll_of_ne elsewhere

/-- A scanner that is cloned before and after it is tokenized.  The first clone does not
show anything, and the second one shows what the scanner shows. -/
theorem scanners_show_their_lives_two_clones :
    let source := utf8 "if a:\n    b"
    let calls : List Call := [.new 0 source, .clone 0 1, .tokenize 0, .clone 0 2]
    let unheard : Life := { source, calls := [] }
    let original : Life := { source, calls := [.clone 0 1, .tokenize 0, .clone 0 2] }
    let clone : Life := { source, calls := [.clone 0 1, .tokenize 0] }
    (lives calls 1 = some unheard ∧ Answers calls (.tokens 1) (.tokens [])) ∧
    (lives calls 0 = some original ∧ lives calls 2 = some clone ∧
      benchAfter calls 0 = benchAfter calls 2) ∧
    (benchAfter calls 1 ≠ none ∧
      benchAfter (calls ++ [.clone 1 3, .tokenize 1, .tokenize 3]) =
        benchAfter (calls ++ [.tokenize 1, .clone 1 3])) ∧
    (∀ request ∈ [Call.tokenize 1, .intoTokens 2], 0 ≠ request.changes) ∧
      benchAfter (calls ++ [.tokenize 1, .intoTokens 2]) 0 = benchAfter calls 0 := by
  intro source calls unheard original clone
  obtain ⟨eachShows, -, alike, cloned, alone⟩ := scanners_show_their_lives calls
  have silent : lives calls 1 = some unheard := rfl
  have first : lives calls 0 = some original := rfl
  have second : lives calls 2 = some clone := rfl
  have shown := eachShows 1
  rw [silent] at shown
  have filled : benchAfter calls 1 ≠ none := by
    obtain ⟨scanner, held, -⟩ := shown.source
    rw [held]
    exact Option.some_ne_none scanner
  have elsewhere : ∀ request ∈ [Call.tokenize 1, .intoTokens 2], 0 ≠ request.changes := by decide
  exact ⟨⟨silent, shown.tokens⟩, ⟨first, second, alike 0 2 _ _ first second rfl rfl rfl⟩,
    ⟨filled, (cloned 1 3 filled).1⟩, elsewhere, alone _ 0 elsewhere⟩

end LayoutLexer
